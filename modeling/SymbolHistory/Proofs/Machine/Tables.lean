import SymbolHistory.Proofs.Machine.Rows
import SymbolHistory.Proofs.Layout.RowCounts
import SymbolHistory.Layout.TableStream

/-!
# The tables stream on a machine

A machine keeps the places of the tables in an array with one entry for each of the 64 possible
tables, and asks the mask whether an entry means anything. The library keeps a list of the tables
that there are.

## Main definitions

* `Tables` : a tables stream as a machine has it.
* `readTables`, `rowsOf` : the header of a stream, and the rows of a table.
* `Shows` : what a machine has is what the library has.

## Main results

* `mirrors_readTables` : a machine reads the header that the library reads.
* `rowsOf_eq` : and the rows that the library reads.
-/

namespace SymbolHistory.Machine

open Bytes

/-- A tables stream. -/
structure Tables where
  /-- The major version of the format. -/
  majorVersion : UInt8
  /-- The minor version of the format. -/
  minorVersion : UInt8
  /-- The flags for the widths of heap indices. -/
  heapFlags : UInt8
  /-- The tables that are present. -/
  present : UInt64
  /-- The tables that are sorted. -/
  sorted : UInt64
  /-- The widths of indices, and the row counts. -/
  sizing : Sizing
  /-- The whole stream. -/
  stream : List UInt8
  /-- Where each table starts; 0 for a table that is absent or not looked at. -/
  offsets : Vector Nat 64

/-- The number of bytes of a row of a table with this number, for the tables that can be sized. -/
def rowSize (sizing : Sizing) (number : Nat) : Exec (Option Nat) :=
  if number = Table.encLog.number then pure (some logRowSize)
  else if number = Table.encMap.number then some <$> MachineRow.rowSize MapRow sizing
  else if number = Table.document.number then some <$> MachineRow.rowSize DocumentRow sizing
  else if number = Table.methodDebugInformation.number then
    some <$> MachineRow.rowSize MethodRow sizing
  else pure none

/-- Enters where the tables with these numbers start, the first one at `offset`, in a stream of
`length` bytes. -/
def placeTables (present : UInt64) (sizing : Sizing) (length : Nat) :
    (numbers : List (Fin 64)) → (offset : Nat) → (offsets : Vector Nat 64) → Exec (Vector Nat 64)
  | [], _, offsets => pure offsets
  | number :: numbers, offset, offsets => do
    if !(← maskHas present number) then placeTables present sizing length numbers offset offsets
    else if Table.methodDebugInformation.number < number then return offsets
    else
      match ← rowSize sizing number with
      | none => fail (.unsupportedTable number)
      | some size =>
        let count ← rowCount sizing.rows number
        let bytes ← mul UInt64.size size count.toNat
        let next ← add UInt64.size offset bytes
        if length < next then fail .outOfBounds
        else placeTables present sizing length numbers next (enter offsets number offset)

/-- The byte at a place. -/
def byteFrom (data : List UInt8) (place : Nat) : Exec UInt8 := do
  return UInt8.ofNat (← wordFrom data place 1)

/-- Reads the word that stands behind the row counts if the flags announce it. -/
def readExtra (data : List UInt8) (heapFlags : UInt8) : Scan Unit :=
  if heapFlags.toNat.testBit 6 then do
    discard (readWord32 data)
  else
    pure ()

/-- Reads the header of a tables stream and finds the tables. -/
def readTables (stream : List UInt8) (allWide : Bool) : Exec Tables := do
  if stream.length < 24 then fail .outOfBounds
  else
    let heapFlags ← byteFrom stream 6
    let present := UInt64.ofNat (← wordFrom stream 8 8)
    let sorted := UInt64.ofNat (← wordFrom stream 16 8)
    let (rows, behindCounts) ← readCounts stream present 24
    let (_, start) ← readExtra stream heapFlags behindCounts
    let sizing := Sizing.ofHeader heapFlags rows allWide
    let offsets ← placeTables present sizing stream.length (List.finRange 64) start
      (Vector.replicate 64 0)
    let majorVersion ← byteFrom stream 4
    let minorVersion ← byteFrom stream 5
    return ⟨majorVersion, minorVersion, heapFlags, present, sorted, sizing, stream, offsets⟩

/-- All rows of a table. -/
def rowsOf (tables : Tables) (ρ : Type) [TableRow ρ] [MachineRow ρ] : Exec (List ρ) := do
  let number := (TableRow.table ρ).number
  if ← maskHas tables.present number then
    let start ← index tables.offsets.toList number
    let count ← rowCount tables.sizing.rows number
    let (rows, _) ← readRows tables.stream tables.sizing count.toNat 1 #[] start
    return rows.toList
  else
    return []

/-! ### The places of tables -/

/-- The entries of an array are the starts in a list, for the tables with these numbers; all other
entries are as they were before. -/
structure Places (present : UInt64) (length : Nat) (numbers : List (Fin 64))
    (before offsets : Vector Nat 64) (starts : List (Nat × Nat)) : Prop where
  /-- Nothing is entered for other tables. -/
  kept : ∀ number ∉ numbers, offsets.get number = before.get number ∧
    starts.lookup number.val = none
  /-- The tables that are present have entries. -/
  found : ∀ number ∈ numbers, number.val ≤ Table.methodDebugInformation.number →
    starts.lookup number.val =
      if hasBit present number then some (offsets.get number) else none
  /-- No table starts behind the end. -/
  inside : ∀ number start, starts.lookup number = some start → start ≤ length

theorem rowSize_eq (sizing : Sizing) (number : Nat) :
    rowSize sizing number = pure (rowSize? sizing number) := by
  unfold rowSize rowSize?
  simp only [MachineRow.rowSize_eq, map_pure, apply_ite (pure (f := Exec))]

theorem le_of_rowSize? {sizing : Sizing} {number size : Nat}
    (h : rowSize? sizing number = some size) :
    size ≤ 16 := by
  unfold rowSize? at h
  split at h
  · cases h
    decide
  · split at h
    · cases h
      exact MachineRow.size_le sizing
    · split at h
      · cases h
        exact MachineRow.size_le sizing
      · split at h
        · cases h
          exact MachineRow.size_le sizing
        · cases h

/-- No table has more than 16 bytes for each of less than 2^32 rows. -/
theorem mul_le_of_rowSize? {sizing : Sizing} {number size : Nat}
    (h : rowSize? sizing number = some size) (count : UInt32) :
    size * count.toNat ≤ 16 * 2 ^ 32 :=
  Nat.mul_le_mul (le_of_rowSize? h) (Nat.le_of_lt count.toNat_lt)

/-- A table that is absent has no start. -/
theorem Places.absent {present : UInt64} {length : Nat} {number : Fin 64} {numbers : List (Fin 64)}
    {before offsets : Vector Nat 64} {starts : List (Nat × Nat)}
    (h : Places present length numbers before offsets starts) (fresh : number ∉ numbers)
    (bit : hasBit present number = false) :
    Places present length (number :: numbers) before offsets starts where
  kept other out := h.kept other fun mem => out (List.mem_cons_of_mem _ mem)
  found other mem le := by
    rcases List.mem_cons.1 mem with rfl | mem
    · rw [bit, (h.kept other fresh).2]
      rfl
    · exact h.found other mem le
  inside := h.inside

/-- A table that is present starts where it is entered. -/
theorem Places.present {present : UInt64} {length offset : Nat} {number : Fin 64}
    {numbers : List (Fin 64)} {before offsets : Vector Nat 64} {starts : List (Nat × Nat)}
    (h : Places present length numbers (enter before number offset) offsets starts)
    (fresh : number ∉ numbers) (bit : hasBit present number = true) (inside : offset ≤ length) :
    Places present length (number :: numbers) before offsets ((number.val, offset) :: starts) where
  kept other out := by
    rw [List.mem_cons, not_or] at out
    obtain ⟨same, none⟩ := h.kept other out.2
    rw [same, enter, RowCounts.get_set, if_neg (Ne.symm out.1), List.lookup_cons,
      beq_false_of_ne (mt Fin.ext out.1)]
    exact ⟨rfl, none⟩
  found other mem le := by
    by_cases same : other = number
    · subst same
      rw [bit, if_pos rfl, (h.kept other fresh).1, enter, RowCounts.get_set, if_pos rfl,
        List.lookup_cons, beq_self_eq_true]
    · rw [List.lookup_cons, beq_false_of_ne (mt Fin.ext same)]
      exact h.found other ((List.mem_cons.1 mem).resolve_left same) le
  inside other start found := by
    rw [List.lookup_cons] at found
    split at found
    · cases found
      exact inside
    · exact h.inside other start found

/-- **A machine enters the starts of the tables that the library finds, or fails as it does.** -/
theorem mirrors_placeTables {present : UInt64} {sizing : Sizing} {length : Nat}
    (bounded : length < objectBound) {numbers : List (Fin 64)}
    (ascending : numbers.Pairwise (· < ·)) {offset : Nat} (inside : offset ≤ length)
    (offsets : Vector Nat 64) :
    Mirrors (Places present length numbers offsets)
      (placeTables present sizing length numbers offset offsets)
      (TableStream.locate present sizing length numbers offset) := by
  induction numbers generalizing offset offsets with
  | nil =>
      refine .done ⟨fun _ _ => ⟨rfl, rfl⟩, fun _ mem => absurd mem List.not_mem_nil, ?_⟩
      intro number start found
      cases found
  | cons number numbers ih =>
      obtain ⟨first, ascending⟩ := List.pairwise_cons.1 ascending
      have fresh : number ∉ numbers := fun mem => Nat.lt_irrefl _ (first number mem)
      rw [placeTables, TableStream.locate, maskHas_eq _ number.isLt, pure_bind]
      cases bit : hasBit present number with
      | false => exact (ih ascending inside offsets).imp fun _ _ places => places.absent fresh bit
      | true =>
          simp only [Bool.not_true, Bool.false_eq_true, if_false]
          by_cases behind : Table.methodDebugInformation.number < number.val
          · -- All tables with these numbers are behind the last one that is looked at.
            rw [if_pos behind, if_pos behind]
            refine .done ⟨fun _ _ => ⟨rfl, rfl⟩, fun other mem le => ?_, ?_⟩
            · rcases List.mem_cons.1 mem with rfl | mem
              · omega
              · have := first other mem
                omega
            · intro number start found
              cases found
          · rw [if_neg behind, if_neg behind, rowSize_eq, pure_bind]
            cases size : rowSize? sizing number with
            | none => exact .failed _
            | some bytes =>
                have product := mul_le_of_rowSize? size (sizing.rows.get number)
                have small : bytes * (sizing.rows.get number).toNat < UInt64.size := by
                  simp only [UInt64.size]
                  omega
                have sum : offset + bytes * (sizing.rows.get number).toNat < UInt64.size := by
                  simp only [objectBound, UInt64.size] at *
                  omega
                dsimp only
                rw [rowCount_eq _ number.isLt, pure_bind, mul_of_lt small, pure_bind,
                  add_of_lt sum, pure_bind]
                by_cases fits : offset + bytes * (sizing.rows.get number).toNat ≤ length
                · rw [if_neg (Nat.not_lt.2 fits), if_pos fits]
                  exact (ih ascending fits _).map_right _ fun _ _ places =>
                    places.present fresh bit inside
                · rw [if_pos (Nat.lt_of_not_le fits), if_neg fits]
                  exact .failed _

/-! ### The header -/

/-- What a machine has, with a list of starts in place of the array. -/
def Tables.withStarts (tables : Tables) (starts : List (Nat × Nat)) : TableStream :=
  ⟨tables.majorVersion, tables.minorVersion, tables.heapFlags, tables.present, tables.sorted,
    tables.sizing, tables.stream, starts⟩

/-- What a machine has is what the library has, and the array has the starts in the list. -/
structure Shows (tables : Tables) (parsed : TableStream) : Prop where
  /-- All but the places is the same. -/
  same : parsed = tables.withStarts parsed.starts
  /-- The places are the starts. -/
  places : Places tables.present tables.stream.length (List.finRange 64) (Vector.replicate 64 0)
    tables.offsets parsed.starts

/-- A byte that is there is the byte at its place. -/
theorem byteFrom_eq {data : List UInt8} (bounded : data.length < objectBound) {place : Nat}
    (lt : place < data.length) : byteFrom data place = pure (data[place]?.getD 0) := by
  obtain ⟨b, rest, cons⟩ : ∃ b rest, data.drop place = b :: rest :=
    List.exists_cons_of_length_pos (by rw [List.length_drop]; omega)
  have found : data[place]? = some b := by
    rw [← List.head?_drop, cons]
    rfl
  have value : ofLittle [b] = b.toNat := by
    rw [ofLittle, ofLittle]
    omega
  rw [byteFrom, wordFrom_of_le bounded lt, cons, found, pure_bind]
  change pure (UInt8.ofNat (ofLittle [b])) = _
  rw [value, UInt8.ofNat_toNat]
  rfl

theorem performs_readExtra {data : List UInt8} (bounded : data.length < objectBound)
    (heapFlags : UInt8) :
    Performs data (readExtra data heapFlags) (TableStream.readExtra heapFlags) :=
  .ite ((performs_word32 bounded).bind fun _ => performs_pure ()) (performs_pure ())

/-- **A machine reads the header of the tables that the library reads, or fails as it does.** -/
theorem mirrors_readTables {stream : List UInt8} (bounded : stream.length < objectBound)
    (allWide : Bool) :
    Mirrors (fun tables parsed => tables.stream = stream ∧ Shows tables parsed)
      (readTables stream allWide) (TableStream.parse stream allWide) := by
  unfold readTables TableStream.parse
  by_cases short : stream.length < 24
  · rw [if_pos short, if_pos (by rw [List.length_take]; omega)]
    exact .failed _
  · rw [if_neg short, if_neg (by rw [List.length_take]; omega), byteFrom_eq bounded (by omega),
      pure_bind, wordFrom_of_le bounded (by omega), pure_bind, wordFrom_of_le bounded (by omega),
      pure_bind]
    dsimp only
    refine (performs_readCounts bounded _ 24 (by omega)).mirrors_bind fun rows behind _ inside => ?_
    refine (performs_readExtra bounded _ behind inside).mirrors_bind fun _ start _ inside => ?_
    have position : stream.length - (stream.drop start).length = start := by
      rw [List.length_drop]
      omega
    dsimp only
    rw [position]
    refine (mirrors_placeTables bounded (List.pairwise_lt_finRange 64) inside _).bind
      fun offsets starts places => ?_
    rw [byteFrom_eq bounded (by omega), pure_bind, byteFrom_eq bounded (by omega), pure_bind]
    exact .done ⟨rfl, rfl, places⟩

/-! ### The rows -/

/-- Every table that has a name is looked at. -/
theorem number_le (table : Table) : table.number ≤ Table.methodDebugInformation.number := by
  cases table <;> decide

/-- **A machine reads the rows of a table that the library reads, or fails as it does.** -/
theorem rowsOf_eq {tables : Tables} {parsed : TableStream}
    (bounded : tables.stream.length < objectBound) (h : Shows tables parsed) (ρ : Type) [TableRow ρ]
    [MachineRow ρ] : rowsOf tables ρ = ofExcept (parsed.rows ρ) := by
  set number := (TableRow.table ρ).number
  have lt : number < 64 := (TableRow.table ρ).number_lt
  have found := h.places.found ⟨number, lt⟩ (List.mem_finRange _) (number_le _)
  rw [h.same]
  unfold rowsOf TableStream.rows
  dsimp only [Tables.withStarts]
  rw [maskHas_eq _ lt, pure_bind, found]
  cases bit : hasBit tables.present number with
  | false => rfl
  | true =>
      have inside := h.places.inside _ _ (by rw [found]; exact if_pos bit)
      have agrees := agrees_readRows (ρ := ρ) bounded tables.sizing
        (tables.sizing.rows.ofTable (TableRow.table ρ)).toNat 1 #[] inside
      simp only [if_true]
      rw [index_toList _ lt, pure_bind, rowCount_eq _ lt, pure_bind]
      unfold rowsAt
      change readRows tables.stream tables.sizing
        (tables.sizing.rows.ofTable (TableRow.table ρ)).toNat 1 #[] _ >>= _ = _
      generalize readRows (ρ := ρ) tables.stream tables.sizing
        (tables.sizing.rows.ofTable (TableRow.table ρ)).toNat 1 #[]
          (tables.offsets.get ⟨number, lt⟩) = given at agrees ⊢
      generalize collectRows (ρ := ρ) tables.sizing _ 1 _ #[] _ = expected at agrees ⊢
      cases agrees <;> rfl

end SymbolHistory.Machine
