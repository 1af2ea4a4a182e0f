import SymbolHistory.Proofs.Layout.Row
import Mathlib.Data.List.Sort
import Mathlib.Data.Nat.Bitwise

/-!
# Tables are found where they stand

A tables stream is written as a header with a mask, the row counts of the tables in the mask, and
the tables in the same order without gaps. From a stream of that kind the tables are found again.

## Main definitions

* `TableStream.maskOf` : the mask of a list of tables.
* `TableStream.startsFrom` : where tables start that stand one behind the other.

## Main results

* `TableStream.tablesOf_maskOf` : the tables of a mask are those that it was made of.
* `TableStream.locate_eq_ok` : tables are located where they stand.
* `TableStream.exists_parse` : a stream that is written offers its tables.
-/

namespace SymbolHistory

open Bytes

/-- The number of a table, as a bit of a mask. -/
def Table.index (table : Table) : Fin 64 :=
  ⟨table.number, table.number_lt⟩

theorem Table.index_injective {a b : Table} (h : a.index = b.index) : a = b :=
  Table.number_inj.1 (congrArg Fin.val h)

namespace TableStream

/-! ### Masks -/

/-- The mask of a list of tables. -/
def maskOf (tables : List Table) : Nat :=
  tables.foldl (fun mask table => mask ||| 1 <<< table.number) 0

/-- A mask has the bits of its tables. -/
theorem testBit_foldl_mask (tables : List Table) (mask i : Nat) :
    (tables.foldl (fun mask table => mask ||| 1 <<< table.number) mask).testBit i = true ↔
      mask.testBit i = true ∨ ∃ table ∈ tables, table.number = i := by
  induction tables generalizing mask with
  | nil => simp
  | cons table tables ih =>
      rw [List.foldl_cons, ih, Nat.testBit_or, Nat.one_shiftLeft, Nat.testBit_two_pow]
      simp [or_assoc]

theorem hasBit_maskOf {tables : List Table} {number : Fin 64} :
    hasBit (UInt64.ofNat (maskOf tables)) number = true ↔
      ∃ table ∈ tables, table.index = number := by
  rw [hasBit, UInt64.toNat_ofNat', Nat.testBit_mod_two_pow, decide_eq_true number.isLt,
    Bool.true_and, maskOf, testBit_foldl_mask, Nat.zero_testBit]
  simp [Table.index, Fin.ext_iff]

/-- **The tables of a mask are those that it was made of**, if these ascend. -/
theorem tablesOf_maskOf {tables : List Table}
    (ascending : tables.Pairwise (·.number < ·.number)) :
    RowCounts.tablesOf (UInt64.ofNat (maskOf tables)) = tables.map Table.index := by
  refine List.Pairwise.eq_of_mem_iff (r := (· < ·)) ?_ (List.pairwise_map.2 ascending) ?_
  · exact (List.pairwise_lt_finRange 64).filter _
  · intro number
    rw [RowCounts.mem_tablesOf, hasBit_maskOf, List.mem_map]

/-! ### Places of tables -/

/-- Where tables start that stand one behind the other from `offset` on. -/
def startsFrom (contents : Table → List UInt8) : (offset : Nat) → List Table → List (Nat × Nat)
  | _, [] => []
  | offset, table :: tables =>
    (table.number, offset) :: startsFrom contents (offset + (contents table).length) tables

/-- Rows of tables behind the last one of debug symbols have no known size. -/
theorem le_of_rowSize? {sizing : Sizing} {number size : Nat}
    (h : rowSize? sizing number = some size) : number ≤ Table.methodDebugInformation.number := by
  refine Decidable.byContradiction fun behind => ?_
  rw [Table.number] at behind
  rw [rowSize?, if_neg (by rw [Table.number]; omega), if_neg (by rw [Table.number]; omega),
    if_neg (by rw [Table.number]; omega), if_neg (by rw [Table.number]; omega)] at h
  cases h

/-- **Tables are located where they stand**, if the size of each is known. -/
theorem locate_eq_ok {present : UInt64} {sizing : Sizing} {length offset : Nat}
    {numbers : List (Fin 64)} {tables : List Table} {contents : Table → List UInt8}
    (h : numbers.filter (fun number : Fin 64 => hasBit present number) = tables.map Table.index)
    (sized : ∀ table ∈ tables, ∃ size, rowSize? sizing table.number = some size ∧
      size * (sizing.rows.ofTable table).toNat = (contents table).length)
    (inside : offset + (tables.flatMap contents).length ≤ length) :
    locate present sizing length numbers offset = .ok (startsFrom contents offset tables) := by
  induction numbers generalizing tables offset with
  | nil =>
      rw [List.filter_nil, eq_comm, List.map_eq_nil_iff] at h
      subst h
      rfl
  | cons number numbers ih =>
      rw [locate]
      by_cases bit : hasBit present number
      · -- The next table is the one with this number.
        rw [List.filter_cons_of_pos (p := fun number : Fin 64 => hasBit present number) bit] at h
        obtain ⟨table, others, rfl, rfl, tail⟩ := List.map_eq_cons_iff.1 h.symm
        obtain ⟨size, known, fits⟩ := sized table List.mem_cons_self
        have le := le_of_rowSize? known
        rw [List.flatMap_cons, List.length_append] at inside
        rw [if_neg (by simp [bit]), show table.index.val = table.number from rfl,
          if_neg (Nat.not_lt.2 le), known]
        simp only
        rw [show sizing.rows.get table.index = sizing.rows.ofTable table from rfl, fits,
          if_pos (by omega), ih tail.symm (fun t mem => sized t (List.mem_cons_of_mem _ mem))
            (by omega)]
        rfl
      · rw [List.filter_cons_of_neg (p := fun number : Fin 64 => hasBit present number) bit] at h
        rw [if_pos (by simpa using bit)]
        exact ih h sized inside

/-- The start of a table is found by its number, and its contents stand there. -/
theorem exists_lookup_startsFrom {contents : Table → List UInt8} {tables : List Table}
    {table : Table} (distinct : tables.Nodup) (mem : table ∈ tables) (offset : Nat) :
    ∃ front back, (startsFrom contents offset tables).lookup table.number =
        some (offset + front.length) ∧
      tables.flatMap contents = front ++ (contents table ++ back) := by
  induction tables generalizing offset with
  | nil => exact absurd mem List.not_mem_nil
  | cons first tables ih =>
      obtain ⟨fresh, distinct_tail⟩ := List.nodup_cons.1 distinct
      rw [startsFrom, List.flatMap_cons]
      by_cases same : table = first
      · subst same
        exact ⟨[], tables.flatMap contents, by simp, rfl⟩
      · have other : (table.number == first.number) = false := by
          simpa [Table.number_inj] using same
        obtain ⟨front, back, found, split⟩ :=
          ih distinct_tail ((List.mem_cons.1 mem).resolve_left same)
            (offset + (contents first).length)
        refine ⟨contents first ++ front, back, ?_, ?_⟩
        · rw [List.lookup_cons, other]
          simp only [found, List.length_append, Nat.add_assoc]
        · rw [split, List.append_assoc]

/-- Tables that do not stand there are not found. -/
theorem lookup_startsFrom_eq_none {contents : Table → List UInt8} {tables : List Table}
    {table : Table} (out : table ∉ tables) (offset : Nat) :
    (startsFrom contents offset tables).lookup table.number = none := by
  induction tables generalizing offset with
  | nil => rfl
  | cons first tables ih =>
      rw [List.mem_cons, not_or] at out
      have other : (table.number == first.number) = false := by
        simpa [Table.number_inj] using out.1
      rw [startsFrom, List.lookup_cons, other]
      exact ih out.2 _

/-! ### Streams -/

/-- The first 24 bytes of a tables stream: heap flags and mask, all else fixed. -/
def encodeStart (heapFlags : UInt8) (tables : List Table) : List UInt8 :=
  toLittle 4 0 ++ [2, 0, heapFlags, 1] ++ toLittle 8 (maskOf tables) ++ toLittle 8 0

theorem length_encodeStart (heapFlags : UInt8) (tables : List Table) :
    (encodeStart heapFlags tables).length = 24 :=
  rfl

/-- A mask is read back from its word, up to the 64 bits that it has. -/
theorem ofNat_ofLittle_toLittle (mask : Nat) :
    UInt64.ofNat (ofLittle (toLittle 8 mask)) = UInt64.ofNat mask := by
  rw [ofLittle_toLittle, ← UInt64.toNat_inj, UInt64.toNat_ofNat', UInt64.toNat_ofNat',
    show capacity 8 = 2 ^ 64 by decide, Nat.mod_mod]

/-- Counts that are words can be taken for words in what is written. -/
theorem toLittle_ofNat {rowCount : Table → Nat} (small : ∀ table, rowCount table < UInt32.size) :
    (fun table => toLittle 4 (rowCount table)) =
      fun table => toLittle 4 (UInt32.ofNat (rowCount table)).toNat :=
  funext fun table => by rw [UInt32.toNat_ofNat_of_lt' (small table)]

/-- The row counts behind the mask are read as the counts of the tables. -/
theorem exists_read_counts {tables : List Table} {rowCount : Table → Nat}
    (ascending : tables.Pairwise (·.number < ·.number))
    (small : ∀ table, rowCount table < UInt32.size)
    (absent : ∀ table, table ∉ tables → rowCount table = 0) (rest : List UInt8) :
    ∃ rows : RowCounts, RowCounts.read (UInt64.ofNat (maskOf tables))
        ((tables.flatMap fun table => toLittle 4 (rowCount table)) ++ rest) = .ok (rows, rest) ∧
      ∀ table, (rows.ofTable table).toNat = rowCount table := by
  obtain ⟨rows, read, found, kept⟩ := RowCounts.exists_read
    (tables.map fun table => (table.index, UInt32.ofNat (rowCount table)))
    (by rw [tablesOf_maskOf ascending, List.map_map]; rfl) rest
  refine ⟨rows, ?_, fun table => ?_⟩
  · rw [← read, List.flatMap_map, toLittle_ofNat small]
  · change (rows.get table.index).toNat = _
    by_cases mem : table ∈ tables
    · rw [found (table.index, _) (List.mem_map.2 ⟨table, mem, rfl⟩),
        UInt32.toNat_ofNat_of_lt' (small table)]
    · rw [absent table mem, kept table.index ?_]
      · rfl
      · rw [List.map_map, List.mem_map]
        rintro ⟨other, inside, same⟩
        exact mem (Table.index_injective same ▸ inside)

/-- How a stream is read of which the parts are known: its start, the row counts, and what stands
behind them. -/
theorem parse_encodeStart {tables : List Table} {heapFlags : UInt8} {rows : RowCounts}
    {counts behind : List UInt8} {starts : List (Nat × Nat)}
    (plain : heapFlags.toNat.testBit 6 = false)
    (read : RowCounts.read (UInt64.ofNat (maskOf tables)) (counts ++ behind) = .ok (rows, behind))
    (located : locate (UInt64.ofNat (maskOf tables)) (.ofHeader heapFlags rows false)
      (encodeStart heapFlags tables ++ (counts ++ behind)).length (List.finRange 64)
      (encodeStart heapFlags tables ++ counts).length = .ok starts) :
    parse (encodeStart heapFlags tables ++ (counts ++ behind)) false =
      .ok ⟨2, 0, heapFlags, UInt64.ofNat (maskOf tables), UInt64.ofNat (ofLittle (toLittle 8 0)),
        .ofHeader heapFlags rows false, encodeStart heapFlags tables ++ (counts ++ behind),
        starts⟩ := by
  set stream := encodeStart heapFlags tables ++ (counts ++ behind) with stream_eq
  have long : ¬(stream.take 24).length < 24 := by
    rw [List.length_take, stream_eq, List.length_append, length_encodeStart]
    omega
  have mask : UInt64.ofNat (ofLittle ((stream.drop 8).take 8)) = UInt64.ofNat (maskOf tables) :=
    ofNat_ofLittle_toLittle _
  have flags : stream[6]?.getD 0 = heapFlags := rfl
  have behind_start : stream.drop 24 = counts ++ behind := List.drop_left' rfl
  have consumed : stream.length - behind.length =
      (encodeStart heapFlags tables ++ counts).length := by
    rw [stream_eq]
    simp only [List.length_append]
    omega
  rw [parse, if_neg long]
  simp only
  rw [mask, flags, behind_start, Outcome.bind_eq_ok_iff]
  refine ⟨(rows, behind), read, ?_⟩
  rw [Outcome.bind_eq_ok_iff]
  refine ⟨((), behind), ?_, ?_⟩
  · rw [readExtra, if_neg (by simp [plain])]
    rfl
  · rw [Outcome.bind_eq_ok_iff]
    refine ⟨starts, ?_, rfl⟩
    simp only
    rw [consumed, located]

/-- Tables that stand one behind the other are offered, each where it starts. -/
theorem offers_of_startsFrom {parsed : TableStream} {tables : List Table} {rowCount : Table → Nat}
    {contents : Table → List UInt8} {front : Nat} {behind : List UInt8} (distinct : tables.Nodup)
    (absent : ∀ table, table ∉ tables → rowCount table = 0)
    (counted : ∀ table, (parsed.sizing.rows.ofTable table).toNat = rowCount table)
    (starts : parsed.starts = startsFrom contents front tables)
    (placed : parsed.stream.drop front = tables.flatMap contents ++ behind) (table : Table) :
    parsed.Offers table (rowCount table) (contents table) := by
  refine ⟨counted table, ?_⟩
  rw [starts]
  by_cases mem : table ∈ tables
  · obtain ⟨before, after, found, split⟩ := exists_lookup_startsFrom distinct mem front
    refine .inr ⟨_, after ++ behind, found, ?_⟩
    rw [← List.drop_drop, placed, split]
    simp only [List.append_assoc]
    rw [List.drop_left]
  · exact .inl ⟨absent table mem, lookup_startsFrom_eq_none mem front⟩

/-- **A stream that is written offers its tables.** The size of a row may depend on the row counts,
so it has to be known for every header that has the right ones. -/
theorem exists_parse {tables : List Table} {rowCount : Table → Nat} {heapFlags : UInt8}
    (contents : Table → List UInt8)
    (ascending : tables.Pairwise (·.number < ·.number))
    (small : ∀ table, rowCount table < UInt32.size)
    (absent : ∀ table, table ∉ tables → rowCount table = 0)
    (plain : heapFlags.toNat.testBit 6 = false)
    (sized : ∀ rows : RowCounts, (∀ table, (rows.ofTable table).toNat = rowCount table) →
      ∀ table ∈ tables, ∃ size,
        rowSize? (.ofHeader heapFlags rows false) table.number = some size ∧
        size * rowCount table = (contents table).length)
    (behind : List UInt8) :
    ∃ parsed rows, parse (encodeStart heapFlags tables ++
        ((tables.flatMap fun table => toLittle 4 (rowCount table)) ++
          (tables.flatMap contents ++ behind))) false = .ok parsed ∧
      parsed.sizing = .ofHeader heapFlags rows false ∧
      ∀ table, parsed.Offers table (rowCount table) (contents table) := by
  obtain ⟨rows, read, counted⟩ :=
    exists_read_counts ascending small absent (tables.flatMap contents ++ behind)
  set counts := tables.flatMap fun table => toLittle 4 (rowCount table)
  set front := (encodeStart heapFlags tables ++ counts).length with front_eq
  have located : locate (UInt64.ofNat (maskOf tables)) (.ofHeader heapFlags rows false)
      (encodeStart heapFlags tables ++ (counts ++ (tables.flatMap contents ++ behind))).length
      (List.finRange 64) front = .ok (startsFrom contents front tables) := by
    refine locate_eq_ok (tablesOf_maskOf ascending) (fun table mem => ?_) ?_
    · obtain ⟨size, known, fits⟩ := sized rows counted table mem
      refine ⟨size, known, ?_⟩
      rw [show (Sizing.ofHeader heapFlags rows false).rows = rows from rfl, counted, fits]
    · rw [front_eq]
      simp only [List.length_append]
      omega
  have distinct : tables.Nodup := ascending.imp fun lt same => by
    rw [same] at lt
    exact Nat.lt_irrefl _ lt
  have placed : (encodeStart heapFlags tables ++
      (counts ++ (tables.flatMap contents ++ behind))).drop front =
        tables.flatMap contents ++ behind := by
    rw [front_eq, ← List.append_assoc, List.drop_left]
  exact ⟨_, rows, parse_encodeStart plain read located, rfl,
    offers_of_startsFrom distinct absent counted rfl placed⟩

end TableStream

end SymbolHistory
