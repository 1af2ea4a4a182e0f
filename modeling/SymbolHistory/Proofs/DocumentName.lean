import SymbolHistory.Document
import SymbolHistory.Proofs.Heap.Blob

/-!
# Paths are read back from their name blobs

A path is written as the places of its parts, which go to the heap first. Whatever mix of
separators and empty parts it has, the heap then spells the path at the place of its name blob.

## Main definitions

* `DocumentName.Spells` : a list of places spells the parts of a path.
* `DocumentName.Names` : a heap has the name blob of a path at a place.

## Main results

* `DocumentName.Names.decode` : a path is read from the place of its name blob.
* `DocumentName.grows_of_encode` : writing a path puts its name blob into the heap.
* `DocumentName.exists_encode` : writing a path succeeds while there is room.
-/

namespace SymbolHistory.DocumentName

open Bytes BlobHeap

/-! ### Text as bytes -/

/-- Text is read back from its bytes. -/
theorem fromUTF8?_utf8 (text : List Char) :
    String.fromUTF8? ⟨(utf8 text).toArray⟩ = some (String.ofList text) := by
  rw [utf8, Array.toArray_toList, String.fromUTF8?]
  exact dif_pos (String.ofList text).isValidUTF8

theorem utf8_append (a b : List Char) : utf8 (a ++ b) = utf8 a ++ utf8 b := by
  simp [utf8, String.ofList_append]

theorem length_utf8 (text : List Char) : (utf8 text).length = (String.ofList text).utf8ByteSize :=
  rfl

/-- Only the empty text has no bytes. -/
theorem eq_nil_of_utf8 {text : List Char} (h : utf8 text = []) : text = [] := by
  have size : (String.ofList text).utf8ByteSize = 0 := by
    rw [← length_utf8, h, List.length_nil]
  simpa using String.utf8ByteSize_eq_zero_iff.1 size

/-! ### Parts -/

/-- In a heap with these bytes, `places` spells `parts`: the place of each part, as a compressed
number. -/
inductive Spells (bytes : List UInt8) : (parts : List (List Char)) → (places : List UInt8) → Prop
  | nil : Spells bytes [] []
  | cons {part : List Char} {parts : List (List Char)} {place : Nat} {form places : List UInt8} :
      Stores bytes place (utf8 part) → encodeUnsigned place = .ok form →
      Spells bytes parts places → Spells bytes (part :: parts) (form ++ places)

/-- What is spelled stays so when bytes are added behind. -/
theorem Spells.mono {bytes more : List UInt8} {parts : List (List Char)}
    {places : List UInt8} (h : Spells bytes parts places) (kept : bytes <+: more) :
    Spells more parts places := by
  induction h with
  | nil => exact .nil
  | cons stored written _ ih => exact .cons (stored.mono kept) written ih

/-- A number is read from its form, whatever follows it. -/
theorem unsigned_append {n : Nat} {form : List UInt8} (written : encodeUnsigned n = .ok form)
    (rest : List UInt8) : unsigned (form ++ rest) = .ok (n, rest) := by
  obtain ⟨w, held, rfl⟩ := exists_width_of_encodeUnsigned written
  exact unsigned_eq_ok_iff.2 ⟨w, held, rfl⟩

/-- The part of a path at a place. Place 0 is not looked up. -/
def part (heap : BlobHeap) (place : Nat) : Except Error String := do
  if place = 0 then return ""
  else
    let bytes ← heap.get place
    match String.fromUTF8? ⟨bytes.toArray⟩ with
    | some text => return text
    | none => throw (.malformed (.namePart place))

/-- The parts of a path are read one after the other. -/
theorem decodeParts_eq (heap : BlobHeap) {places : List UInt8} (nonempty : places ≠ []) :
    decodeParts heap places = unsigned places >>= fun r =>
      part heap r.1 >>= fun text => (text :: ·) <$> decodeParts heap r.2 := by
  rcases places with _ | ⟨b, bs⟩
  · contradiction
  · rw [decodeParts]
    split
    · next e h => exact (Outcome.bind_of_error h).symm
    · next place rest h =>
      rw [Outcome.bind_of_ok h]
      unfold part
      by_cases zero : place = 0
      · rw [if_pos zero, if_pos zero]
        rfl
      · rw [if_neg zero, if_neg zero, bind_assoc]
        refine bind_congr fun bytes => ?_
        cases String.fromUTF8? ⟨bytes.toArray⟩ <;> rfl

/-- One part is read, and then the others. -/
theorem decodeParts_of_unsigned {heap : BlobHeap} {places rest : List UInt8} {place : Nat}
    {text : String} (h : unsigned places = .ok (place, rest))
    (found : part heap place = .ok text) :
    decodeParts heap places = (text :: ·) <$> decodeParts heap rest := by
  have nonempty : places ≠ [] := by
    rintro rfl
    have consumed := consumes_unsigned _ _ _ h
    rw [List.length_nil] at consumed
    omega
  rw [decodeParts_eq heap nonempty, Outcome.bind_of_ok h, Outcome.bind_of_ok found]

/-- **The parts of a path are read from what spells them.** -/
theorem Spells.read {bytes : List UInt8} {parts : List (List Char)} {places : List UInt8}
    (h : Spells bytes parts places) (empty : Stores bytes 0 []) :
    decodeParts ⟨bytes.toArray⟩ places = .ok (parts.map String.ofList) := by
  induction h with
  | nil => rw [decodeParts, List.map_nil]
  | @cons text parts place form places stored written _ ih =>
      have found : part ⟨bytes.toArray⟩ place = .ok (String.ofList text) := by
        by_cases zero : place = 0
        · subst zero
          rw [eq_nil_of_utf8 (stored.unique empty)]
          rfl
        · rw [part, if_neg zero, Outcome.bind_of_ok stored.get]
          simp only [fromUTF8?_utf8]
          rfl
      rw [decodeParts_of_unsigned (unsigned_append written places) found, ih]
      rfl

/-- Writing the parts of a path puts them into the heap, and spells them. -/
theorem grows_of_encodeParts {heap later : Builder} {parts : List (List Char)}
    {places : List UInt8} (valid : heap.Valid)
    (h : encodeParts heap parts = .ok (places, later)) :
    heap.Grows later ∧ Spells later.bytes.toList parts places := by
  induction parts generalizing heap places with
  | nil =>
      obtain ⟨rfl, rfl⟩ := Prod.mk.inj (Except.ok.inj h)
      exact ⟨valid.grows, .nil⟩
  | cons part parts ih =>
      obtain ⟨⟨place, middle⟩, added, h⟩ := Outcome.bind_eq_ok_iff.1 h
      obtain ⟨form, written, h⟩ := Outcome.bind_eq_ok_iff.1 h
      obtain ⟨⟨forms, last⟩, others, h⟩ := Outcome.bind_eq_ok_iff.1 h
      obtain ⟨rfl, rfl⟩ := Prod.mk.inj (Except.ok.inj h)
      obtain ⟨grows, stored⟩ := Builder.grows_of_add valid added
      obtain ⟨grows_on, spelled⟩ := ih grows.valid others
      exact ⟨grows.trans grows_on, .cons (stored.mono grows_on.kept) written spelled⟩

/-! ### Names -/

/-- A heap with these bytes has the name blob of `name` at `place`. -/
inductive Names (bytes : List UInt8) (place : Nat) : (name : String) → Prop
  | empty : Stores bytes place [] → Names bytes place ""
  | ofParts {separator : UInt8} {parts : List (List Char)} {places : List UInt8} :
      separator < 128 → Spells bytes parts places → Stores bytes place (separator :: places) →
      Names bytes place ((separatorText separator).intercalate (parts.map String.ofList))

/-- A name blob stays when bytes are added behind. -/
theorem Names.mono {bytes more : List UInt8} {place : Nat} {name : String}
    (h : Names bytes place name) (kept : bytes <+: more) : Names more place name := by
  cases h with
  | empty stored => exact .empty (stored.mono kept)
  | ofParts ascii spelled stored =>
      exact .ofParts ascii (spelled.mono kept) (stored.mono kept)

/-- A name blob starts in front of the end of the heap. -/
theorem Names.lt {bytes : List UInt8} {place : Nat} {name : String} (h : Names bytes place name) :
    place < bytes.length := by
  cases h with
  | empty stored => exact stored.lt
  | ofParts _ _ stored => exact stored.lt

/-- **A path is read from the place of its name blob.** -/
theorem Names.decode {bytes : List UInt8} {place : Nat} {name : String}
    (h : Names bytes place name) (empty : Stores bytes 0 []) :
    decode ⟨bytes.toArray⟩ place = .ok name := by
  cases h with
  | empty stored =>
      rw [DocumentName.decode, Outcome.bind_eq_ok_iff]
      exact ⟨[], stored.get, rfl⟩
  | @ofParts separator parts places ascii spelled stored =>
      rw [DocumentName.decode, Outcome.bind_eq_ok_iff]
      refine ⟨separator :: places, stored.get, ?_⟩
      simp only
      rw [if_pos ascii, Outcome.bind_eq_ok_iff]
      exact ⟨_, spelled.read empty, rfl⟩

/-- The separator of a path is one of the two that there are. -/
theorem eq_of_separator? {text : List Char} {separator : Char}
    (h : separator? text = some separator) : separator = '/' ∨ separator = '\\' := by
  rw [separator?] at h
  by_cases slash : '/' ∈ text
  · rw [if_pos slash] at h
    exact .inl (Option.some.inj h).symm
  · rw [if_neg slash] at h
    by_cases backslash : '\\' ∈ text
    · rw [if_pos backslash] at h
      exact .inr (Option.some.inj h).symm
    · rw [if_neg backslash] at h
      cases h

/-- A separator is an ASCII character, so a byte holds it. -/
theorem separatorText_ofNat {separator : Char} (h : separator = '/' ∨ separator = '\\') :
    UInt8.ofNat separator.toNat < 128 ∧
      separatorText (UInt8.ofNat separator.toNat) = String.singleton separator := by
  obtain rfl | rfl := h <;> decide

/-- What the parts of a path weigh: their bytes, and one more for each part. -/
def weight (parts : List (List Char)) : Nat :=
  (parts.map fun part => (utf8 part).length + 1).sum

/-- The parts of a path together are hardly longer than the path. -/
theorem weight_le_intercalate (separator : Char) (parts : List (List Char)) :
    weight parts ≤ (utf8 ([separator].intercalate parts)).length + 1 := by
  induction parts with
  | nil => exact Nat.zero_le _
  | cons part parts ih =>
      rcases parts with _ | ⟨next, parts⟩
      · simp [weight]
      · have width := separator.utf8Size_pos
        have one : (utf8 [separator]).length = separator.utf8Size := by
          rw [length_utf8, ← String.singleton_eq_ofList, String.utf8ByteSize_singleton]
        rw [weight, List.map_cons, List.sum_cons, List.intercalate_cons_cons, utf8_append,
          utf8_append, List.length_append, List.length_append]
        rw [weight] at ih
        omega

/-- How a path is written: its parts, and behind the separator what spells them. -/
theorem exists_parts {name : String} (nonempty : name ≠ "") :
    ∃ separator parts, separator < 128 ∧
      (separatorText separator).intercalate (parts.map String.ofList) = name ∧
      weight parts ≤ name.utf8ByteSize + 1 ∧
      ∀ heap, encode heap name =
        (encodeParts heap parts >>= fun spelled => spelled.2.add (separator :: spelled.1)) := by
  have size : (utf8 name.toList).length = name.utf8ByteSize := by
    rw [length_utf8, String.ofList_toList]
  cases split : separator? name.toList with
  | none =>
      refine ⟨0, [name.toList], by decide, ?_, ?_, fun heap => ?_⟩
      · rw [List.map_singleton, String.intercalate_singleton, String.ofList_toList]
      · simp [weight, size]
      · rw [encode, if_neg (by simpa using nonempty)]
        simp only [split]
  | some separator =>
      have known := eq_of_separator? split
      obtain ⟨ascii, text⟩ := separatorText_ofNat known
      refine ⟨_, name.toList.splitOn separator, ascii, ?_, ?_, fun heap => ?_⟩
      · have lists : String.toList ∘ String.ofList = id := funext fun _ => String.toList_ofList
        rw [text, ← String.toList_inj, String.toList_intercalate, List.map_map, lists, List.map_id,
          String.toList_singleton, List.intercalate_splitOn]
      · rw [← size]
        have le := weight_le_intercalate separator (name.toList.splitOn separator)
        rwa [List.intercalate_splitOn] at le
      · rw [encode, if_neg (by simpa using nonempty)]
        simp only [split]

/-- **Writing a path puts its name blob into the heap.** -/
theorem grows_of_encode {heap later : Builder} {name : String} {place : UInt32}
    (valid : heap.Valid) (h : encode heap name = .ok (place, later)) :
    heap.Grows later ∧ Names later.bytes.toList place.toNat name := by
  by_cases nonempty : name = ""
  · subst nonempty
    obtain ⟨rfl, rfl⟩ := Prod.mk.inj (Except.ok.inj h)
    exact ⟨valid.grows, .empty valid.empty⟩
  · obtain ⟨separator, parts, ascii, rfl, -, written⟩ := exists_parts nonempty
    rw [written, Outcome.bind_eq_ok_iff] at h
    obtain ⟨⟨places, middle⟩, spelled, added⟩ := h
    obtain ⟨grows, spelled⟩ := grows_of_encodeParts valid spelled
    obtain ⟨grows_on, stored⟩ := Builder.grows_of_add grows.valid added
    exact ⟨grows.trans grows_on, .ofParts ascii (spelled.mono grows_on.kept) stored⟩

/-! ### Sizes -/

theorem weight_cons (part : List Char) (parts : List (List Char)) :
    weight (part :: parts) = (utf8 part).length + 1 + weight parts := by
  rw [weight, List.map_cons, List.sum_cons, weight]

/-- What the parts of a path take in the heap, and what spells them, is bounded by their weight. -/
theorem size_of_encodeParts {heap later : Builder} {parts : List (List Char)}
    {places : List UInt8} (h : encodeParts heap parts = .ok (places, later)) :
    later.bytes.size ≤ heap.bytes.size + 4 * weight parts ∧ places.length ≤ 4 * weight parts := by
  induction parts generalizing heap places with
  | nil =>
      obtain ⟨rfl, rfl⟩ := Prod.mk.inj (Except.ok.inj h)
      exact ⟨Nat.le_add_right _ _, Nat.zero_le _⟩
  | cons part parts ih =>
      obtain ⟨⟨place, middle⟩, added, h⟩ := Outcome.bind_eq_ok_iff.1 h
      obtain ⟨form, written, h⟩ := Outcome.bind_eq_ok_iff.1 h
      obtain ⟨⟨forms, last⟩, others, h⟩ := Outcome.bind_eq_ok_iff.1 h
      obtain ⟨rfl, rfl⟩ := Prod.mk.inj (Except.ok.inj h)
      have one := Builder.size_of_add added
      have short := (length_of_encodeUnsigned written).2
      obtain ⟨heap_size, length⟩ := ih others
      rw [weight_cons, List.length_append]
      omega

/-- Writing the parts of a path succeeds while there is room. -/
theorem exists_encodeParts {heap : Builder} (parts : List (List Char)) (valid : heap.Valid)
    (room : heap.bytes.size + 4 * weight parts ≤ Width.four.bound) :
    ∃ places later, encodeParts heap parts = .ok (places, later) := by
  induction parts generalizing heap with
  | nil => exact ⟨[], heap, rfl⟩
  | cons part parts ih =>
      rw [weight_cons] at room
      obtain ⟨place, middle, added⟩ :=
        heap.exists_add (utf8 part) (by omega) (by omega)
      obtain ⟨grows, stored⟩ := Builder.grows_of_add valid added
      have size := Builder.size_of_add added
      have inside : place.toNat < middle.bytes.size := stored.lt
      obtain ⟨form, written⟩ := encodeUnsigned_eq_ok_iff.2
        (Nat.lt_of_lt_of_le inside (by omega) : place.toNat < Width.four.bound)
      obtain ⟨forms, later, others⟩ := ih grows.valid (by omega)
      exact ⟨form ++ forms, later, Outcome.bind_eq_ok_iff.2 ⟨_, added,
        Outcome.bind_eq_ok_iff.2 ⟨form, written,
          Outcome.bind_eq_ok_iff.2 ⟨_, others, rfl⟩⟩⟩⟩

/-- What a path takes in the heap at most. -/
def cost (name : String) : Nat :=
  8 * name.utf8ByteSize + 13

/-- A heap grows by the cost of a path at most. -/
theorem size_of_encode {heap later : Builder} {name : String} {place : UInt32}
    (h : encode heap name = .ok (place, later)) :
    later.bytes.size ≤ heap.bytes.size + cost name := by
  rw [cost]
  by_cases nonempty : name = ""
  · subst nonempty
    obtain ⟨rfl, rfl⟩ := Prod.mk.inj (Except.ok.inj h)
    omega
  · obtain ⟨separator, parts, -, -, light, written⟩ := exists_parts nonempty
    rw [written, Outcome.bind_eq_ok_iff] at h
    obtain ⟨⟨places, middle⟩, spelled, added⟩ := h
    obtain ⟨size, length⟩ := size_of_encodeParts spelled
    have last := Builder.size_of_add added
    rw [List.length_cons] at last
    simp only at last
    omega

/-- **Writing a path succeeds while there is room.** -/
theorem exists_encode {heap : Builder} {name : String} (valid : heap.Valid)
    (room : heap.bytes.size + cost name ≤ Width.four.bound) :
    ∃ place later, encode heap name = .ok (place, later) := by
  rw [cost] at room
  by_cases nonempty : name = ""
  · subst nonempty
    exact ⟨0, heap, rfl⟩
  · obtain ⟨separator, parts, -, -, light, written⟩ := exists_parts nonempty
    obtain ⟨places, middle, spelled⟩ := exists_encodeParts parts valid (by omega)
    obtain ⟨size, length⟩ := size_of_encodeParts spelled
    obtain ⟨place, later, added⟩ :=
      middle.exists_add (separator :: places) (by omega)
        (by rw [List.length_cons]; omega)
    refine ⟨place, later, ?_⟩
    rw [written, Outcome.bind_eq_ok_iff]
    exact ⟨_, spelled, added⟩

end SymbolHistory.DocumentName
