import SymbolHistory.Layout.ModuleInfo
import SymbolHistory.Proofs.Outcome

/-!
# Row counts and modules are read back

Counts are stored for the tables of a mask, by ascending number. Reading them gives each of these
tables its count, and none to the others.

## Main definitions

* `ModuleInfo.Storable` : what the stored form of a module info can say.

## Main results

* `RowCounts.exists_read` : counts are read from the words that they are stored in.
* `RowCounts.get_of_read` : tables outside the mask have no rows.
* `ModuleInfo.decode_encode` : a module info is read back from its stored form.
* `ModuleInfo.storable_of_decode` : whatever is decoded has a stored form.
-/

namespace SymbolHistory

open Bytes

/-! ### Words -/

/-- A 32-bit word is read back, whatever follows it. -/
theorem word32_append (value : UInt32) (rest : List UInt8) :
    word32 (toLittle 4 value.toNat ++ rest) = .ok (value, rest) := by
  rw [word32, bind_eq_ok_iff]
  exact ⟨value.toNat, rest, word_append rest value.toNat_lt, by rw [UInt32.ofNat_toNat]; rfl⟩

/-- A 64-bit word is read back, whatever follows it. -/
theorem word64_append (value : UInt64) (rest : List UInt8) :
    word64 (toLittle 8 value.toNat ++ rest) = .ok (value, rest) := by
  rw [word64, bind_eq_ok_iff]
  exact ⟨value.toNat, rest, word_append rest value.toNat_lt, by rw [UInt64.ofNat_toNat]; rfl⟩

namespace RowCounts

/-! ### Reading counts -/

theorem get_set {α : Type} {size : Nat} (entries : Vector α size) (number other : Fin size)
    (entry : α) (h : number.val < size) :
    Vector.get (entries.set number entry h) other =
      if number = other then entry else entries.get other := by
  change (entries.set number entry h)[other.val] =
    if number = other then entry else entries[other.val]
  rw [Vector.getElem_set]
  simp only [Fin.ext_iff]

/-- The tables of a mask, by ascending number. -/
def tablesOf (mask : UInt64) : List (Fin 64) :=
  (List.finRange 64).filter fun number : Fin 64 => hasBit mask number

theorem mem_tablesOf {mask : UInt64} {number : Fin 64} :
    number ∈ tablesOf mask ↔ hasBit mask number = true := by
  rw [tablesOf, List.mem_filter, and_iff_right (List.mem_finRange number)]

/-- Reading counts on from `start`: the tables of the mask get their counts, one after the other,
and those of all others stay. -/
theorem exists_foldlM_readOne {mask : UInt64} {numbers : List (Fin 64)}
    {entries : List (Fin 64 × UInt32)} (distinct : numbers.Nodup)
    (h : numbers.filter (fun number : Fin 64 => hasBit mask number) = entries.map (·.1))
    (start : RowCounts) (rest : List UInt8) :
    ∃ counts, numbers.foldlM (readOne mask) start
        ((entries.flatMap fun entry => toLittle 4 entry.2.toNat) ++ rest) = .ok (counts, rest) ∧
      (∀ entry ∈ entries, counts.get entry.1 = entry.2) ∧
      ∀ number ∉ entries.map (·.1), counts.get number = start.get number := by
  induction numbers generalizing entries start with
  | nil =>
      rw [List.filter_nil, eq_comm, List.map_eq_nil_iff] at h
      subst h
      exact ⟨start, rfl, fun _ mem => absurd mem List.not_mem_nil, fun _ _ => rfl⟩
  | cons number numbers ih =>
      obtain ⟨fresh, distinct_tail⟩ := List.nodup_cons.1 distinct
      rw [List.foldlM_cons]
      by_cases bit : hasBit mask number
      · -- The next entry is that of this table.
        rw [List.filter_cons_of_pos (p := fun number : Fin 64 => hasBit mask number) bit] at h
        obtain ⟨entry, others, rfl, rfl, tail⟩ := List.map_eq_cons_iff.1 h.symm
        obtain ⟨counts, read, found, kept⟩ := ih distinct_tail tail.symm (start.set entry.1 entry.2)
        have new : entry.1 ∉ others.map (·.1) := by
          intro mem
          rw [tail] at mem
          exact fresh (List.mem_filter.1 mem).1
        refine ⟨counts, ?_, ?_, ?_⟩
        · rw [bind_eq_ok_iff]
          refine ⟨start.set entry.1 entry.2, _, ?_, read⟩
          rw [readOne, if_pos bit, bind_eq_ok_iff]
          refine ⟨entry.2, _, ?_, rfl⟩
          rw [List.flatMap_cons, List.append_assoc]
          exact word32_append _ _
        · intro other mem
          rcases List.mem_cons.1 mem with rfl | mem
          · rw [kept _ new, get_set, if_pos rfl]
          · exact found other mem
        · intro other out
          rw [List.map_cons, List.mem_cons, not_or] at out
          rw [kept other out.2, get_set, if_neg (Ne.symm out.1)]
      · rw [List.filter_cons_of_neg (p := fun number : Fin 64 => hasBit mask number) bit] at h
        obtain ⟨counts, read, found, kept⟩ := ih distinct_tail h start
        refine ⟨counts, ?_, found, kept⟩
        rw [bind_eq_ok_iff]
        refine ⟨start, _, ?_, read⟩
        rw [readOne, if_neg bit]
        rfl

/-- **Counts are read from the words that they are stored in**, one for each table of the mask. -/
theorem exists_read {mask : UInt64} (entries : List (Fin 64 × UInt32))
    (h : tablesOf mask = entries.map (·.1))
    (rest : List UInt8) :
    ∃ counts, read mask ((entries.flatMap fun entry => toLittle 4 entry.2.toNat) ++ rest) =
        .ok (counts, rest) ∧
      (∀ entry ∈ entries, counts.get entry.1 = entry.2) ∧
      ∀ number ∉ entries.map (·.1), counts.get number = 0 := by
  obtain ⟨counts, read, found, kept⟩ :=
    exists_foldlM_readOne (List.nodup_finRange 64) h zero rest
  refine ⟨counts, read, found, fun number out => ?_⟩
  rw [kept number out]
  exact Vector.getElem_replicate number.isLt

/-- Reading counts on leaves those of tables outside the mask. -/
theorem get_of_foldlM_readOne {mask : UInt64} {number : Fin 64}
    (absent : hasBit mask number = false) {numbers : List (Fin 64)} {start counts : RowCounts}
    {bytes rest : List UInt8}
    (h : numbers.foldlM (readOne mask) start bytes = .ok (counts, rest)) :
    counts.get number = start.get number := by
  induction numbers generalizing start bytes with
  | nil =>
      obtain ⟨rfl, -⟩ := pure_eq_ok_iff.1 h
      rfl
  | cons other numbers ih =>
      rw [List.foldlM_cons, bind_eq_ok_iff] at h
      obtain ⟨middle, behind, one, h⟩ := h
      rw [ih h]
      by_cases bit : hasBit mask other
      · rw [readOne, if_pos bit, bind_eq_ok_iff] at one
        obtain ⟨count, _, -, one⟩ := one
        obtain ⟨rfl, -⟩ := pure_eq_ok_iff.1 one
        have ne : other ≠ number := by
          rintro rfl
          rw [absent] at bit
          cases bit
        rw [get_set, if_neg ne]
      · rw [readOne, if_neg bit] at one
        obtain ⟨rfl, -⟩ := pure_eq_ok_iff.1 one
        rfl

/-- A table outside the mask has no rows, whatever the counts are read from. -/
theorem get_of_read {mask : UInt64} {number : Fin 64} (absent : hasBit mask number = false)
    {counts : RowCounts} {bytes rest : List UInt8} (h : read mask bytes = .ok (counts, rest)) :
    counts.get number = 0 := by
  rw [get_of_foldlM_readOne absent h]
  exact Vector.getElem_replicate number.isLt

/-- The stored counts are words, one for each table of the mask. -/
theorem encode_eq (mask : UInt64) (counts : RowCounts) :
    encode mask counts = ((tablesOf mask).map fun number => (number, counts.get number)).flatMap
      fun entry => toLittle 4 entry.2.toNat := by
  rw [encode, tablesOf]
  induction List.finRange 64 with
  | nil => rfl
  | cons number numbers ih =>
      rw [List.flatMap_cons, ih]
      by_cases bit : hasBit mask number
      · rw [if_pos bit, List.filter_cons_of_pos (by simpa using bit)]
        rfl
      · rw [if_neg bit, List.filter_cons_of_neg (by simpa using bit)]
        rfl

theorem length_encode_le (mask : UInt64) (counts : RowCounts) :
    (encode mask counts).length ≤ 256 := by
  have few : (tablesOf mask).length ≤ 64 := by
    have le := List.length_filter_le (fun number : Fin 64 => hasBit mask number)
      (List.finRange 64)
    rwa [List.length_finRange] at le
  rw [encode_eq, length_flatMap_of_forall fun _ => length_toLittle _ _, List.length_map]
  omega

/-- Counts are read back from their stored form, if tables outside the mask have no rows. -/
theorem read_encode {mask : UInt64} {counts : RowCounts}
    (absent : ∀ number : Fin 64, hasBit mask number = false → counts.get number = 0)
    (rest : List UInt8) : read mask (encode mask counts ++ rest) = .ok (counts, rest) := by
  obtain ⟨result, read, found, kept⟩ := exists_read
    ((tablesOf mask).map fun number => (number, counts.get number))
    (by rw [List.map_map]; exact (List.map_id _).symm) rest
  rw [encode_eq, read]
  have same : ∀ number, result.get number = counts.get number := by
    intro number
    by_cases bit : hasBit mask number
    · exact found (number, counts.get number)
        (List.mem_map.2 ⟨number, mem_tablesOf.2 bit, rfl⟩)
    · rw [absent number (by simpa using bit)]
      refine kept number fun mem => bit ?_
      rw [List.map_map] at mem
      obtain ⟨_, inside, rfl⟩ := List.mem_map.1 mem
      exact mem_tablesOf.1 inside
  have eq : result = counts := by
    ext i lt
    exact congrArg UInt32.toNat (same ⟨i, lt⟩)
  rw [eq]

end RowCounts

/-! ### Modules -/

namespace ModuleInfo

/-- What the stored form of a module info can say: the entry point is null or a method, and only
tables that the module has have rows. -/
structure Storable (info : ModuleInfo) : Prop where
  /-- The entry point is null or a method. -/
  entryPoint : info.entryPoint.isNull ∨ info.entryPoint.refersTo .methodDef
  /-- A table that the module does not have has no rows. -/
  rows : ∀ number : Fin 64, hasBit info.referenced number = false → info.rows.get number = 0

/-- **A module info is read back from its stored form.** -/
theorem decode_encode {info : ModuleInfo} (h : info.Storable) : decode info.encode = .ok info := by
  obtain ⟨id, entryPoint, referenced, rows⟩ := info
  have long : ¬((encode ⟨id, entryPoint, referenced, rows⟩).take 32).length < 32 := by
    simp only [encode, List.length_take, List.length_append, length_toLittle, Vector.length_toList]
    omega
  rw [decode, if_neg long, Outcome.map_eq_ok_iff]
  refine ⟨(⟨id, entryPoint, referenced, rows⟩, []), ?_, rfl⟩
  rw [read, bind_eq_ok_iff]
  refine ⟨id.toList, toLittle 4 entryPoint.value.toNat ++ (toLittle 8 referenced.toNat ++
    rows.encode referenced), take_eq_ok_iff.2 ⟨?_, Vector.length_toList⟩, ?_⟩
  · simp only [encode, List.append_assoc]
  rw [bind_eq_ok_iff]
  refine ⟨entryPoint.value, _, word32_append _ _, ?_⟩
  have allowed : entryPoint.isNull || entryPoint.refersTo .methodDef := by
    simpa using h.entryPoint
  rw [if_pos allowed, bind_eq_ok_iff]
  refine ⟨referenced, _, word64_append _ _, ?_⟩
  rw [bind_eq_ok_iff]
  have counted := RowCounts.read_encode h.rows []
  rw [List.append_nil] at counted
  refine ⟨rows, [], counted, ?_⟩
  have same : (Vector.ofFn fun i : Fin 20 => id.toList[i.val]?.getD 0) = id := by
    ext i lt
    simp
  rw [same]
  rfl

/-- **What is decoded can be stored**, whatever stream it is decoded from. -/
theorem storable_of_decode {info : ModuleInfo} {stream : List UInt8}
    (h : decode stream = .ok info) : info.Storable := by
  rw [decode] at h
  split at h
  · cases h
  · obtain ⟨⟨found, rest⟩, found_read, rfl⟩ := Outcome.map_eq_ok_iff.1 h
    obtain ⟨id, _, -, found_read⟩ := bind_eq_ok_iff.1 found_read
    obtain ⟨entryPoint, _, -, found_read⟩ := bind_eq_ok_iff.1 found_read
    split at found_read
    · next allowed =>
      obtain ⟨referenced, _, -, found_read⟩ := bind_eq_ok_iff.1 found_read
      obtain ⟨rows, _, counts, found_read⟩ := bind_eq_ok_iff.1 found_read
      obtain ⟨rfl, -⟩ := pure_eq_ok_iff.1 found_read
      exact ⟨by simpa using allowed, fun _ absent => RowCounts.get_of_read absent counts⟩
    · cases found_read

/-- The stored form of a module info is short. -/
theorem length_encode_le (info : ModuleInfo) : info.encode.length ≤ 288 := by
  have counts := RowCounts.length_encode_le info.referenced info.rows
  simp only [encode, List.length_append, length_toLittle, Vector.length_toList]
  omega

end ModuleInfo

end SymbolHistory
