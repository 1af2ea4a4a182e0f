import SymbolHistory.Proofs.Machine.Scan
import SymbolHistory.Proofs.Outcome
import SymbolHistory.Layout.Root

/-!
# The metadata root on a machine

The root says where everything else is, and nothing of what it says can be trusted. A machine adds
offsets and sizes up in 64 bits and compares the sums with the length of the data before it takes a
slice.

## Main definitions

* `streamHeader`, `headerSize`, `streamHeaders` : the headers of the streams.
* `readRoot`, `streamBytes` : the root, and the streams that it names.

## Main results

* `readRoot_eq` : a machine reads the root that the library reads.
* `streamBytes_eq` : and finds the streams that the library finds.
-/

namespace SymbolHistory.Machine

open Bytes

/-- The name in a stream header: its bytes up to the first zero, of `left` at most that are not
looked at yet. -/
def nameBytes (data : List UInt8) : (left counter : Nat) → (name : List UInt8) → Exec (List UInt8)
  | 0, _, name => pure name
  | left + 1, counter, name => do
    let start ← add UInt64.size 8 counter
    let byte ← wordFrom data start 1
    if byte = 0 then return name
    else nameBytes data left (counter + 1) (name ++ [UInt8.ofNat byte])

/-- The stream header at the front of the data. -/
def streamHeader (data : List UInt8) : Exec StreamHeader := do
  if data.length < 9 then fail .outOfBounds
  else
    let room ← sub data.length 8
    let bytes ← nameBytes data (min 32 room) 0 []
    match StreamName.ofText? (latinText bytes) with
    | none => fail (.malformed (.streamName (latinText bytes)))
    | some name =>
      let offset ← wordAt data 0 4
      let size ← wordFrom data 4 4
      return ⟨name, UInt32.ofNat offset, UInt32.ofNat size⟩

/-- The number of bytes of a stored header. The name ends with a zero and is filled up to a multiple
of four bytes. -/
def headerSize (header : StreamHeader) : Exec Nat := do
  let terminated ← add UInt64.size header.name.text.utf8ByteSize 1
  let filled ← add UInt64.size terminated 3
  add UInt64.size 8 (filled &&& UInt64.size - 4)

/-- Reads `count` headers from an offset on, behind the ones in `found`. -/
def streamHeaders (data : List UInt8) :
    (count offset : Nat) → (found : List StreamHeader) → Exec (List StreamHeader)
  | 0, _, found => pure found
  | count + 1, offset, found => do
    if data.length ≤ offset then fail .outOfBounds
    else
      let header ← streamHeader (← sliceFrom data offset)
      match checkedAdd UInt32.size header.offset.toNat header.size.toNat with
      | none => fail (.malformed (.streamRange header.offset.toNat header.size.toNat))
      | some stop =>
        if data.length < stop then fail .outOfBounds
        else if found.any (·.name = header.name) then
          fail (.malformed (.streamTwice header.name.text))
        else
          let next ← add UInt64.size offset (← headerSize header)
          streamHeaders data count next (found ++ [header])

/-- The root at the front of the data. -/
def readRoot (data : List UInt8) : Exec Root := do
  if data.length < 20 then fail .outOfBounds
  else
    let signature ← wordAt data 0 4
    if signature ≠ Root.magic.toNat then fail (.malformed (.rootSignature signature))
    else
      let versionLength ← wordAt data 12 4
      let versionEnd ← add UInt64.size versionLength 16
      let fixedEnd ← add UInt64.size versionEnd 4
      if data.length < fixedEnd then fail .outOfBounds
      else
        let version ← slice data 16 versionEnd
        let (flags, behindFlags) ← readWord data 2 versionEnd
        let (count, _) ← readWord data 2 behindFlags
        if count = 0 ∨ StreamName.all.length < count then fail (.malformed (.streamCount count))
        else
          let headers ← streamHeaders data count fixedEnd []
          let majorVersion ← wordFrom data 4 2
          let minorVersion ← wordFrom data 6 2
          let reserved ← wordFrom data 8 4
          return {
            signature := UInt32.ofNat signature
            majorVersion := UInt16.ofNat majorVersion
            minorVersion := UInt16.ofNat minorVersion
            reserved := UInt32.ofNat reserved
            versionLength := UInt32.ofNat versionLength
            version := latinText (version.takeWhile (· ≠ 0))
            flags := UInt16.ofNat flags
            headers }

/-- The bytes of a stream, if there is one of that name. A slice that is not there is none. -/
def streamBytes (root : Root) (data : List UInt8) (name : StreamName) :
    Exec (Option (List UInt8)) :=
  match root.headers.find? (·.name = name) with
  | none => return none
  | some header => do
    let start := header.offset.toNat
    let stop ← add UInt64.size start header.size.toNat
    return if start ≤ stop ∧ stop ≤ data.length then some ((data.drop start).take (stop - start))
      else none

/-! ### Stream headers -/

section Headers

variable {data : List UInt8}

/-- The first byte is a number of its own. -/
theorem ofLittle_take_one {b : UInt8} {rest : List UInt8} :
    ofLittle ((b :: rest).take 1) = b.toNat := by
  rw [List.take_succ_cons, List.take_zero, ofLittle, ofLittle]
  omega

/-- The bytes of a name are read up to its end, as long as there are enough of them. -/
theorem nameBytes_eq (bounded : data.length < objectBound) {left counter : Nat}
    (fits : 8 + counter + left ≤ data.length) (name : List UInt8) :
    nameBytes data left counter name =
      pure (name ++ ((data.drop (8 + counter)).take left).takeWhile (· ≠ 0)) := by
  induction left generalizing counter name with
  | zero => simp [nameBytes]
  | succ left ih =>
      have small : 8 + counter < UInt64.size := by
        simp only [objectBound, UInt64.size] at *
        omega
      obtain ⟨b, rest, cons⟩ : ∃ b rest, data.drop (8 + counter) = b :: rest :=
        List.exists_cons_of_length_pos (by rw [List.length_drop]; omega)
      have tail : data.drop (8 + (counter + 1)) = rest := by
        rw [← Nat.add_assoc, ← List.drop_drop, cons]
        rfl
      rw [nameBytes, add_of_lt small, pure_bind, wordFrom_of_le bounded (by omega), pure_bind, cons,
        ofLittle_take_one, List.take_succ_cons]
      by_cases zero : b = 0
      · subst zero
        simp
      · rw [if_neg (by simpa [← UInt8.toNat_inj] using zero), ih (by omega), tail,
          List.takeWhile_cons_of_pos (by simpa using zero), UInt8.ofNat_toNat, List.append_assoc]
        rfl

/-- **A machine reads the stream header that the library reads.** -/
theorem streamHeader_eq (bounded : data.length < objectBound) :
    streamHeader data = ofExcept (StreamHeader.parse data) := by
  unfold streamHeader StreamHeader.parse
  by_cases short : data.length < 9
  · have short' : (data.take 9).length < 9 := by
      rw [List.length_take]
      omega
    rw [if_pos short, if_pos short']
    rfl
  · have long : ¬ (data.take 9).length < 9 := by
      rw [List.length_take]
      omega
    have name : ((data.drop 8).take (min 32 (data.length - 8))).takeWhile (· ≠ 0) =
        ((data.drop 8).take 32).takeWhile (· ≠ 0) := by
      rw [← List.length_drop, ← List.take_eq_take_min]
    rw [if_neg short, if_neg long, sub_of_le (by omega), pure_bind,
      nameBytes_eq bounded (by omega), pure_bind, List.nil_append, Nat.add_zero, name,
      wordAt_of_le bounded (by omega), wordFrom_of_le bounded (by omega)]
    dsimp only
    cases StreamName.ofText? (latinText (((data.drop 8).take 32).takeWhile (· ≠ 0))) <;> rfl

/-- Names have one byte for each letter, and few of them. -/
theorem utf8ByteSize_text (name : StreamName) :
    name.text.utf8ByteSize = name.text.length ∧ name.text.length ≤ 8 := by
  cases name <;> decide

/-- Clearing two bits rounds down to a multiple of four. -/
theorem and_not_three : ∀ n ≤ 12, n &&& UInt64.size - 4 = n / 4 * 4 := by
  decide

/-- The size of a header is added up without overflow. -/
theorem headerSize_eq (header : StreamHeader) : headerSize header = pure header.storedSize := by
  obtain ⟨letters, short⟩ := utf8ByteSize_text header.name
  have small : 20 < UInt64.size := by decide
  rw [headerSize, letters, add_of_lt (by omega), pure_bind, add_of_lt (by omega), pure_bind,
    and_not_three _ (by omega), add_of_lt (by omega)]
  rfl

/-- Names are short, so headers are. -/
theorem storedSize_le (header : StreamHeader) : header.storedSize ≤ 20 := by
  have := (utf8ByteSize_text header.name).2
  unfold StreamHeader.storedSize StreamName.fieldSize roundUp4
  omega

/-- The headers of streams are read without a trap. -/
theorem streamHeaders_eq (bounded : data.length < objectBound) (count : Nat) {offset : Nat}
    (found : List StreamHeader) :
    streamHeaders data count offset found =
      ofExcept (Root.parseHeaders data data.length count offset found) := by
  induction count generalizing offset found with
  | zero => rfl
  | succ count ih =>
      rw [streamHeaders, Root.parseHeaders]
      rcases Nat.lt_or_ge offset data.length with inside | outside
      · have bounded' : (data.drop offset).length < objectBound := by
          rw [List.length_drop]
          omega
        rw [if_neg (Nat.not_le.2 inside), sliceFrom_of_le (Nat.le_of_lt inside), pure_bind,
          streamHeader_eq bounded', ofExcept_bind]
        refine bind_congr fun header => ?_
        have small : offset + header.storedSize < UInt64.size := by
          have := storedSize_le header
          simp only [objectBound, UInt64.size] at *
          omega
        unfold checkedAdd
        dsimp only
        by_cases large : UInt32.size ≤ header.offset.toNat + header.size.toNat
        · rw [if_neg (Nat.not_lt.2 large), if_pos large]
          rfl
        rw [if_pos (Nat.lt_of_not_le large), if_neg large]
        dsimp only
        by_cases behind : data.length < header.offset.toNat + header.size.toNat
        · rw [if_pos behind, if_pos behind]
          rfl
        rw [if_neg behind, if_neg behind]
        by_cases twice : found.any (·.name = header.name)
        · rw [if_pos twice, if_pos twice]
          rfl
        · rw [if_neg twice, if_neg twice, headerSize_eq, pure_bind, add_of_lt small, pure_bind, ih]
      · rw [if_pos outside, List.drop_eq_nil_of_le outside]
        rfl

/-- Streams lie inside the data. -/
theorem le_of_parseHeaders {length count position : Nat} {found headers : List StreamHeader}
    (h : Root.parseHeaders data length count position found = .ok headers)
    (inside : ∀ header ∈ found, header.offset.toNat + header.size.toNat ≤ length) :
    ∀ header ∈ headers, header.offset.toNat + header.size.toNat ≤ length := by
  induction count generalizing position found with
  | zero =>
      cases h
      exact inside
  | succ count ih =>
      obtain ⟨header, -, h⟩ := Outcome.bind_eq_ok_iff.1 h
      dsimp only at h
      split at h
      · cases h
      · split at h
        · cases h
        · next le =>
          split at h
          · cases h
          · refine ih h fun other mem => ?_
            obtain mem | mem := List.mem_append.1 mem
            · exact inside other mem
            · obtain rfl := List.mem_singleton.1 mem
              exact Nat.le_of_not_lt le

end Headers

/-! ### The root -/

section Root

variable {data : List UInt8}

/-- **A machine reads the root that the library reads, or fails as it does.** -/
theorem readRoot_eq (bounded : data.length < objectBound) :
    readRoot data = ofExcept (Root.parse data) := by
  unfold readRoot Root.parse
  by_cases short : data.length < 20
  · rw [if_pos short]
    dsimp only
    rw [if_pos short]
    rfl
  rw [if_neg short, wordAt_of_le bounded (by omega), pure_bind]
  dsimp only
  rw [if_neg short]
  by_cases magic : ofLittle ((data.drop 0).take 4) = Root.magic.toNat
  · have limit : ofLittle ((data.drop 12).take 4) < UInt32.size := by
      have length : ((data.drop 12).take 4).length = 4 := by
        rw [List.length_take, List.length_drop]
        omega
      have lt := ofLittle_lt ((data.drop 12).take 4)
      rw [length] at lt
      exact lt
    have size : UInt32.size + 20 < UInt64.size := by decide
    rw [if_neg (not_not.2 magic), if_neg (not_not.2 magic), wordAt_of_le bounded (by omega),
      pure_bind, add_of_lt (by omega), pure_bind, add_of_lt (by omega), pure_bind]
    by_cases behind : data.length < ofLittle ((data.drop 12).take 4) + 16 + 4
    · rw [if_pos behind, if_pos behind]
      rfl
    rw [if_neg behind, if_neg behind, slice_of_le (Nat.le_add_left ..) (by omega), pure_bind,
      readWord_of_le bounded (by omega), pure_bind]
    dsimp only
    rw [readWord_of_le bounded (by omega), pure_bind]
    dsimp only
    by_cases invalid :
        ofLittle ((data.drop (ofLittle ((data.drop 12).take 4) + 16 + 2)).take 2) = 0 ∨
          StreamName.all.length <
            ofLittle ((data.drop (ofLittle ((data.drop 12).take 4) + 16 + 2)).take 2)
    · rw [if_pos invalid, if_pos invalid]
      rfl
    rw [if_neg invalid, if_neg invalid, streamHeaders_eq bounded, ofExcept_bind]
    refine bind_congr fun headers => ?_
    rw [wordFrom_of_le bounded (by omega), wordFrom_of_le bounded (by omega),
      wordFrom_of_le bounded (by omega), Nat.add_sub_cancel, magic, UInt32.ofNat_toNat]
    rfl
  · rw [if_pos magic, if_pos magic]
    rfl

/-- Streams that are accepted are inside the data. -/
theorem le_of_parse {root : Root} (h : Root.parse data = .ok root) :
    ∀ header ∈ root.headers, header.offset.toNat + header.size.toNat ≤ data.length := by
  unfold Root.parse at h
  dsimp only at h
  split at h
  · cases h
  split at h
  · cases h
  split at h
  · cases h
  split at h
  · cases h
  obtain ⟨headers, parsed, h⟩ := Outcome.bind_eq_ok_iff.1 h
  cases h
  exact le_of_parseHeaders parsed fun _ mem => absurd mem List.not_mem_nil

/-- **A machine finds the streams that the library finds.** -/
theorem streamBytes_eq {root : Root} (h : Root.parse data = .ok root) (name : StreamName) :
    streamBytes root data name = pure (root.stream? data name) := by
  unfold streamBytes Root.stream?
  cases found : root.headers.find? (·.name = name) with
  | none => rfl
  | some header =>
      have inside := le_of_parse h header (List.mem_of_find?_eq_some found)
      have size : 2 * 4294967296 < UInt64.size := by decide
      have := header.offset.toNat_lt
      have := header.size.toNat_lt
      dsimp only
      rw [add_of_lt (by omega), pure_bind, if_pos ⟨Nat.le_add_right .., inside⟩,
        Nat.add_sub_cancel_left]
      rfl

end Root

end SymbolHistory.Machine
