import SymbolHistory.Proofs.DocumentName.Reading
import SymbolHistory.Proofs.Machine.Heaps

/-!
# Document names on a machine

A machine spells a document name part by part: as long as the name blob has bytes, it adds the
separator, reads the place of a part and adds the part.

## Main definitions

* `nameAt` : the name that the blob at a place spells.
* `resolveDocument` : the document of a stored row.

## Main results

* `nameAt_eq`, `resolveDocument_eq` : these give what the library gives.
* `utf8ByteSize_lt_of_decode` : names fit into memory.
-/

namespace SymbolHistory.Machine

open Bytes DocumentName

/-- The part of a name at a place. Place 0 is not looked up. -/
def partAt (heap : BlobHeap) (place : Nat) : Exec String := do
  if place = 0 then return ""
  else
    let part ← blobAt heap place
    match String.fromUTF8? ⟨part.toArray⟩ with
    | some text => return text
    | none => fail (.malformed (.namePart place))

/-- Adds a part to a name, behind the separator unless it is the first one. -/
def joinPart (separator : String) (name : String × Bool) (part : String) : String × Bool :=
  ((if name.2 then name.1 else name.1 ++ separator) ++ part, false)

/-- Reads the place of a part and adds the part to a name. -/
def addPart (heap : BlobHeap) (blob : List UInt8) (separator : String) (name : String × Bool) :
    Scan (String × Bool) := do
  let place ← readUnsigned blob
  let part ← partAt heap place
  return joinPart separator name part

/-- Every part of a name takes one byte at least, so names end. -/
theorem advances_addPart (heap : BlobHeap) (blob : List UInt8) (separator : String)
    (name : String × Bool) : Advances 1 (addPart heap blob separator name) :=
  (advances_readUnsigned blob).bind (n := 0) fun _ =>
    (advances_exec _).bind fun _ => advances_pure _

/-- The name that the blob at a place spells. -/
def nameAt (heap : BlobHeap) (place : Nat) : Exec String := do
  let blob ← blobAt heap place
  if blob.length = 0 then return ""
  else
    let (separator, position) ← readWord blob 1 0
    if 128 ≤ separator then fail (.malformed (.nameSeparator (UInt8.ofNat separator)))
    else
      let text := separatorText (UInt8.ofNat separator)
      let (name, _) ← whileMore blob (addPart heap blob text) (advances_addPart heap blob text)
        ("", true) position
      return name

/-- The document of a stored row. -/
def resolveDocument (row : DocumentRow) (blobs : BlobHeap) (guids : List UInt8) :
    Exec Document := do
  let name ← nameAt blobs row.name.toNat
  let hashAlgorithm ← guidAt guids row.hashAlgorithm.toNat
  let hash ← blobAt blobs row.hash.toNat
  let language ← guidAt guids row.language.toNat
  return ⟨row.rid, row.token, name, hashAlgorithm, hash, language⟩

/-! ### Parts -/

/-- A part is looked up in the heap without a trap. -/
theorem partAt_eq {heap : BlobHeap} (bounded : heap.bytes.size < objectBound) (place : Nat) :
    partAt heap place = ofExcept (part heap place) := by
  unfold partAt part
  split
  · rfl
  · rw [blobAt_eq bounded, ofExcept_bind]
    refine bind_congr fun bytes => ?_
    cases String.fromUTF8? ⟨bytes.toArray⟩ <;> rfl

/-- Adding parts one after the other joins them. -/
theorem foldl_joinPart (separator name : String) (parts : List String) :
    (parts.foldl (joinPart separator) (name, false)).1 =
      if parts = [] then name else name ++ separator ++ separator.intercalate parts := by
  induction parts generalizing name with
  | nil => rfl
  | cons part parts ih =>
      rw [List.foldl_cons, joinPart, ih, if_neg (List.cons_ne_nil _ _)]
      rcases parts with _ | ⟨other, parts⟩
      · rfl
      · rw [if_neg (List.cons_ne_nil _ _), String.intercalate_cons_cons]
        simp only [String.append_assoc, Bool.false_eq_true, if_false]

/-- Parts are joined one after the other. -/
theorem intercalate_eq_foldl (separator : String) (parts : List String) :
    separator.intercalate parts = (parts.foldl (joinPart separator) ("", true)).1 := by
  rcases parts with _ | ⟨part, parts⟩
  · rfl
  · rw [List.foldl_cons, joinPart, foldl_joinPart]
    rcases parts with _ | ⟨other, parts⟩
    · simp
    · rw [if_neg (List.cons_ne_nil _ _), String.intercalate_cons_cons]
      simp

/-- The loop over the name blob adds the parts that the library reads. -/
theorem whileMore_addPart {heap : BlobHeap} {blob : List UInt8}
    (bounded : heap.bytes.size < objectBound) (bounded' : blob.length < objectBound)
    (separator : String) (name : String × Bool) {position : Nat} (le : position ≤ blob.length) :
    whileMore blob (addPart heap blob separator) (advances_addPart heap blob separator) name
      position =
      ofExcept ((fun parts => parts.foldl (joinPart separator) name) <$>
        decodeParts heap (blob.drop position)) := by
  rcases Nat.lt_or_ge position blob.length with more | done
  · have nonempty : blob.drop position ≠ [] := by
      rw [Ne, List.drop_eq_nil_iff]
      omega
    have agrees := performs_unsigned bounded' position le
    rw [decodeParts_eq heap nonempty]
    cases read : unsigned (blob.drop position) with
    | error e =>
        rw [read] at agrees
        rw [whileMore_of_fail _ more (bind_apply_fail agrees.eq_fail _)]
        rfl
    | ok r =>
        obtain ⟨place, rest⟩ := r
        have consumed := consumes_unsigned _ _ _ read
        rw [read] at agrees
        obtain ⟨stop, -, inside, rfl, found⟩ := agrees.exists_stop
        rw [List.length_drop, List.length_drop] at consumed
        have advanced : position < stop := by omega
        have step := bind_apply found fun place => do
          let part ← partAt heap place
          return joinPart separator name part
        have through := partAt_eq bounded place
        cases result : part heap place with
        | error e =>
            rw [result] at through
            have failed : addPart heap blob separator name position = fail e := by
              rw [addPart, step, through]
              rfl
            rw [whileMore_of_fail _ more failed, Outcome.bind_of_ok rfl,
              Outcome.bind_of_error result]
            rfl
        | ok text =>
            rw [result] at through
            have done : addPart heap blob separator name position =
                pure (joinPart separator name text, stop) := by
              rw [addPart, step, through]
              rfl
            rw [whileMore_of_done _ more done,
              whileMore_addPart bounded bounded' separator _ inside, Outcome.bind_of_ok rfl,
              Outcome.bind_of_ok result]
            cases decodeParts heap (blob.drop stop) <;> rfl
  · rw [whileMore_of_end _ _ done, List.drop_eq_nil_of_le done, decodeParts]
    rfl
termination_by blob.length - position
decreasing_by omega

/-! ### Names -/

/-- **At any place, a machine spells the name that the library spells, or fails as it does.** -/
theorem nameAt_eq {heap : BlobHeap} (bounded : heap.bytes.size < objectBound) (place : Nat) :
    nameAt heap place = ofExcept (decode heap place) := by
  unfold nameAt decode
  rw [blobAt_eq bounded]
  cases got : heap.get place with
  | error e => rfl
  | ok blob =>
      rcases blob with _ | ⟨separator, places⟩
      · rfl
      · have bounded' : (separator :: places).length < objectBound :=
          Nat.lt_trans (BlobHeap.get_eq_ok_iff.1 got).length_lt (by decide)
        have agrees := performs_word bounded' 1 0 (Nat.zero_le _)
        rw [List.drop_zero, word_one_cons] at agrees
        obtain ⟨stop, -, inside, rest, read⟩ := agrees.exists_stop
        have one : stop = 1 := by
          have lengths := congrArg List.length rest
          simp only [List.length_drop, List.length_cons] at lengths inside
          omega
        subst one
        rw [ofExcept_ok, pure_bind, List.length_cons, if_neg (Nat.succ_ne_zero _), read, pure_bind]
        dsimp only
        rw [UInt8.ofNat_toNat]
        change _ = ofExcept (if separator < 128 then
          decodeParts heap places >>= fun parts =>
            pure ((separatorText separator).intercalate parts) else _)
        by_cases ascii : separator < 128
        · have small : separator.toNat < 128 := UInt8.lt_iff_toNat_lt.1 ascii
          rw [if_neg (by omega), if_pos ascii, whileMore_addPart bounded bounded' _ _ inside,
            ← rest]
          cases decodeParts heap places with
          | error e => rfl
          | ok parts =>
              change pure _ = (pure _ : Exec String)
              rw [intercalate_eq_foldl]
        · have large : ¬ separator.toNat < 128 := fun lt => ascii (UInt8.lt_iff_toNat_lt.2 lt)
          rw [if_pos (by omega), if_neg ascii]
          rfl

/-- A document row is resolved without a trap. -/
theorem resolveDocument_eq {row : DocumentRow} {blobs : BlobHeap} {guids : GuidHeap}
    {stream : List UInt8} (bounded : blobs.bytes.size < objectBound)
    (same : ∀ place, guidAt stream place = ofExcept (guids.get place)) :
    resolveDocument row blobs stream = ofExcept (row.resolve blobs guids) := by
  unfold resolveDocument DocumentRow.resolve
  simp only [nameAt_eq bounded, blobAt_eq bounded, same, ofExcept_bind, ofExcept_pure]

/-! ### The size of names -/

/-- Every part of a name takes a byte of the name blob at least, and is a blob itself. -/
theorem parts_of_decodeParts {heap : BlobHeap} {places : List UInt8} {parts : List String}
    (h : decodeParts heap places = .ok parts) :
    parts.length ≤ places.length ∧ ∀ text ∈ parts, text.utf8ByteSize < 0x20000000 := by
  obtain ⟨numbers, whole, found⟩ := decodeParts_eq_ok_iff.1 h
  obtain ⟨length, each⟩ := List.forall₂_iff_get.1 found
  refine ⟨length ▸ whole.length_le, fun text mem => ?_⟩
  obtain ⟨i, lt, rfl⟩ := List.mem_iff_getElem.1 mem
  exact (each i (length ▸ lt) lt).utf8ByteSize_lt

/-- A name is no longer than its parts and separators together. -/
theorem utf8ByteSize_foldl_joinPart {separator : String} {parts : List String} {size : Nat}
    (short : separator.utf8ByteSize ≤ size) (small : ∀ text ∈ parts, text.utf8ByteSize ≤ size)
    (name : String × Bool) :
    (parts.foldl (joinPart separator) name).1.utf8ByteSize ≤
      name.1.utf8ByteSize + parts.length * (2 * size) := by
  induction parts generalizing name with
  | nil => simp
  | cons part parts ih =>
      have head := small part (List.mem_cons_self ..)
      have rest := ih (fun text mem => small text (List.mem_cons_of_mem _ mem))
        (joinPart separator name part)
      have joined : (joinPart separator name part).1.utf8ByteSize ≤
          name.1.utf8ByteSize + 2 * size := by
        rw [joinPart, String.utf8ByteSize_append]
        split
        · omega
        · rw [String.utf8ByteSize_append]
          omega
      rw [List.foldl_cons, List.length_cons, Nat.succ_mul]
      omega

/-- **A name that is spelled by a heap fits into memory.** -/
theorem utf8ByteSize_lt_of_decode {heap : BlobHeap} {place : Nat} {name : String}
    (h : decode heap place = .ok name) : name.utf8ByteSize < objectBound := by
  obtain ⟨blob, got, h⟩ := Outcome.bind_eq_ok_iff.1 h
  rcases blob with _ | ⟨separator, places⟩
  · cases h
    decide
  · dsimp only at h
    split at h
    · obtain ⟨parts, decoded, h⟩ := Outcome.bind_eq_ok_iff.1 h
      cases h
      obtain ⟨le, small⟩ := parts_of_decodeParts decoded
      have length : (separator :: places).length < 0x20000000 :=
        (BlobHeap.get_eq_ok_iff.1 got).length_lt
      have short : (separatorText separator).utf8ByteSize ≤ 0x20000000 := by
        unfold separatorText
        split
        · decide
        · rw [String.utf8ByteSize_singleton]
          have := Char.utf8Size_le_four (Char.ofNat separator.toNat)
          omega
      have size :=
        utf8ByteSize_foldl_joinPart short (fun text mem => (small text mem).le) ("", true)
      rw [intercalate_eq_foldl]
      rw [List.length_cons] at length
      simp only [String.utf8ByteSize_empty, Nat.zero_add] at size
      refine Nat.lt_of_le_of_lt (Nat.le_trans size (Nat.mul_le_mul_right _
        (show parts.length ≤ 0x20000000 by omega))) (by decide)
    · cases h

end SymbolHistory.Machine
