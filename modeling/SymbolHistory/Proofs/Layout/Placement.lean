import SymbolHistory.Proofs.Layout.RowSize
import SymbolHistory.Proofs.Layout.TableStream

/-!
# Tables have their places

A tables stream can come from anywhere. If its header is accepted, then the tables whose rows have a
known size stand one behind the other, right behind the header and inside the stream, and every row
of them is there to be read.

## Main definitions

* `Table.sized` : the tables whose rows have a known size.
* `TableRange` : where a table stands.
* `TableStream.LaidOut` : the ranges of the tables of a stream.
* `TableStream.HasRows` : the rows of one of its tables.

## Main results

* `TableStream.exists_tables_of_locate` : tables that are located stand one behind the other.
* `TableStream.exists_laidOut` : the tables of a stream that is accepted are laid out.
* `TableStream.LaidOut.exists_hasRows` : all of their rows are read.
* `TableStream.tables_are_where_their_sizes_say` : both, and what a row takes.
-/

namespace SymbolHistory

open Bytes

/-- The tables whose rows have a known size, by ascending number. -/
def Table.sized : List Table :=
  [.encLog, .encMap, .document, .methodDebugInformation]

/-- The tables with known row sizes ascend. -/
theorem Table.sized_ascending : Table.sized.Pairwise (·.number < ·.number) := by
  decide

/-- A table with its first byte and the byte behind it. -/
structure TableRange where
  /-- The table. -/
  table : Table
  /-- The first byte. -/
  start : Nat
  /-- The byte behind the last one. -/
  stop : Nat
  deriving DecidableEq, Repr

namespace TableStream

/-! ### Ranges -/

/-- The number of bytes of a table whose rows have a known size. -/
def byteCount (sizing : Sizing) (table : Table) : Nat :=
  (rowSize? sizing table.number).getD 0 * (sizing.rows.ofTable table).toNat

/-- The ranges of tables that stand one behind the other from `offset` on. -/
def rangesFrom (sizing : Sizing) : (offset : Nat) → List Table → List TableRange
  | _, [] => []
  | offset, table :: tables =>
    ⟨table, offset, offset + byteCount sizing table⟩ ::
      rangesFrom sizing (offset + byteCount sizing table) tables

/-- There is one range for each table. -/
@[simp] theorem map_table_rangesFrom (sizing : Sizing) (offset : Nat) (tables : List Table) :
    (rangesFrom sizing offset tables).map (·.table) = tables := by
  induction tables generalizing offset with
  | nil => rfl
  | cons table tables ih => rw [rangesFrom, List.map_cons, ih]

/-- Every range is as long as its table. -/
theorem stop_of_mem_rangesFrom {sizing : Sizing} {offset : Nat} {tables : List Table}
    {range : TableRange} (mem : range ∈ rangesFrom sizing offset tables) :
    offset ≤ range.start ∧ range.stop = range.start + byteCount sizing range.table := by
  induction tables generalizing offset with
  | nil => exact absurd mem List.not_mem_nil
  | cons table tables ih =>
      rcases List.mem_cons.1 mem with rfl | mem
      · exact ⟨Nat.le_refl _, rfl⟩
      · obtain ⟨behind, stop⟩ := ih mem
        exact ⟨by omega, stop⟩

/-- Each range starts where the one before it stops. -/
theorem isChain_rangesFrom (sizing : Sizing) (offset : Nat) (tables : List Table) :
    (rangesFrom sizing offset tables).IsChain fun range next => next.start = range.stop := by
  induction tables generalizing offset with
  | nil => exact .nil
  | cons table tables ih =>
      cases tables with
      | nil => exact .singleton _
      | cons other tables => exact .cons_cons rfl (ih _)

/-- No two ranges have a byte in common. -/
theorem pairwise_rangesFrom (sizing : Sizing) (offset : Nat) (tables : List Table) :
    (rangesFrom sizing offset tables).Pairwise fun range other => range.stop ≤ other.start := by
  induction tables generalizing offset with
  | nil => exact .nil
  | cons table tables ih =>
      exact .cons (fun other mem => (stop_of_mem_rangesFrom mem).1) (ih _)

/-! ### Locating tables -/

/-- A number whose rows have a known size is that of one of the sized tables. -/
theorem exists_table_of_rowSize? {sizing : Sizing} {number : Fin 64} {size : Nat}
    (h : rowSize? sizing number = some size) : ∃ table ∈ Table.sized, table.index = number := by
  have named : ∀ table ∈ Table.sized, number.val = table.number →
      ∃ table ∈ Table.sized, table.index = number := fun table mem eq =>
    ⟨table, mem, Fin.ext eq.symm⟩
  unfold rowSize? at h
  split at h
  · exact named .encLog (by decide) ‹_›
  split at h
  · exact named .encMap (by decide) ‹_›
  split at h
  · exact named .document (by decide) ‹_›
  split at h
  · exact named .methodDebugInformation (by decide) ‹_›
  · cases h

/-- Whether a table is placed: it is present, and not behind the last one of debug symbols. -/
def isPlaced (present : UInt64) (number : Fin 64) : Bool :=
  hasBit present number && number.val ≤ Table.methodDebugInformation.number

/-- Behind the last table of debug symbols no table is placed. -/
theorem filter_isPlaced_of_behind {present : UInt64} {number : Fin 64} {numbers : List (Fin 64)}
    (ascending : (number :: numbers).Pairwise (· < ·))
    (behind : Table.methodDebugInformation.number < number.val) :
    (number :: numbers).filter (isPlaced present) = [] := by
  refine List.filter_eq_nil_iff.2 fun other mem => ?_
  have le : number ≤ other := by
    rcases List.mem_cons.1 mem with rfl | mem
    · exact Nat.le_refl _
    · exact Nat.le_of_lt ((List.pairwise_cons.1 ascending).1 other mem)
  have := Nat.lt_of_lt_of_le behind le
  simp [isPlaced]
  omega

/-- A table takes as many bytes as its rows do together. -/
theorem byteCount_of_rowSize? {sizing : Sizing} {table : Table} {size : Nat}
    (known : rowSize? sizing table.index = some size) :
    byteCount sizing table = size * (sizing.rows.get table.index).toNat := by
  rw [byteCount, show table.number = table.index.val from rfl, known]
  rfl

/-- **Tables that are located stand one behind the other**, inside the stream. -/
theorem exists_tables_of_locate {present : UInt64} {sizing : Sizing} {length offset : Nat}
    {numbers : List (Fin 64)} {starts : List (Nat × Nat)} (ascending : numbers.Pairwise (· < ·))
    (h : locate present sizing length numbers offset = .ok starts) :
    ∃ tables : List Table, tables.map Table.index = numbers.filter (isPlaced present) ∧
      (∀ table ∈ tables, table ∈ Table.sized) ∧
      starts = (rangesFrom sizing offset tables).map
        (fun range => (range.table.number, range.start)) ∧
      ∀ range ∈ rangesFrom sizing offset tables, range.stop ≤ length := by
  induction numbers generalizing offset starts with
  | nil =>
      cases h
      exact ⟨[], rfl, by simp, rfl, by simp [rangesFrom]⟩
  | cons number numbers ih =>
      have ascending_tail := (List.pairwise_cons.1 ascending).2
      rw [locate] at h
      split at h
      · next absent =>
        obtain ⟨tables, indices, rest⟩ := ih ascending_tail h
        refine ⟨tables, ?_, rest⟩
        rw [Bool.not_eq_true'] at absent
        rw [indices, List.filter_cons_of_neg (by simp [isPlaced, absent])]
      split at h
      · next behind =>
        cases h
        exact ⟨[], (filter_isPlaced_of_behind ascending behind).symm, by simp, rfl,
          by simp [rangesFrom]⟩
      · next present_bit within =>
        split at h
        · cases h
        · next size known =>
          dsimp only at h
          split at h
          · next inside =>
            obtain ⟨others, located, rfl⟩ := Outcome.map_eq_ok_iff.1 h
            obtain ⟨tables, indices, sized, rfl, bounds⟩ := ih ascending_tail located
            obtain ⟨table, mem, rfl⟩ := exists_table_of_rowSize? known
            have bytes := byteCount_of_rowSize? known
            rw [← bytes] at inside bounds
            refine ⟨table :: tables, ?_, List.forall_mem_cons.2 ⟨mem, sized⟩, ?_,
              List.forall_mem_cons.2 ⟨inside, bounds⟩⟩
            · rw [List.map_cons, indices, List.filter_cons_of_pos]
              simpa [isPlaced, Nat.not_lt.1 within] using present_bit
            · rw [rangesFrom, List.map_cons, bytes]
              rfl
          · cases h

/-! ### Layout -/

/-- The number of bytes of the header in front of the tables. -/
def headerBytes (tables : TableStream) : Nat :=
  24 + 4 * tables.tableCount + if tables.heapFlags.toNat.testBit 6 then 4 else 0

/-- The tables of a stream whose rows have a known size stand in these ranges. -/
structure LaidOut (tables : TableStream) (ranges : List TableRange) : Prop where
  /-- There is a range for every table that is present, by ascending number. -/
  present : ranges.map (·.table) = Table.sized.filter tables.hasTable
  /-- The places that are stored are the starts of the ranges. -/
  starts : tables.starts = ranges.map fun range => (range.table.number, range.start)
  /-- Every range is as long as the rows of its table. -/
  sized : ∀ range ∈ ranges, ∃ size, rowSize? tables.sizing range.table.number = some size ∧
    range.stop = range.start + size * (tables.sizing.rows.ofTable range.table).toNat
  /-- The first range starts behind the header. -/
  first : ∀ range ∈ ranges.head?, range.start = tables.headerBytes
  /-- Every other range starts where the one before it ends. -/
  consecutive : ranges.IsChain fun range next => next.start = range.stop
  /-- No two ranges have a byte in common. -/
  disjoint : ranges.Pairwise fun range other => range.stop ≤ other.start
  /-- All ranges end inside the stream. -/
  inside : ∀ range ∈ ranges, range.stop ≤ tables.stream.length

/-- The row counts take four bytes for each table of the mask. -/
theorem takes_foldlM_readOne (mask : UInt64) (numbers : List (Fin 64)) (counts : RowCounts) :
    Takes (4 * numbers.countP fun number : Fin 64 => hasBit mask number)
      (numbers.foldlM (RowCounts.readOne mask) counts) := by
  induction numbers generalizing counts with
  | nil => exact takes_pure counts
  | cons number numbers ih =>
      rw [List.foldlM_cons, RowCounts.readOne]
      by_cases bit : hasBit mask number
      · rw [List.countP_cons_of_pos (p := fun number : Fin 64 => hasBit mask number) bit,
          Nat.mul_succ, Nat.add_comm, if_pos bit]
        exact (takes_word32.bind fun _ => takes_pure _).bind ih
      · rw [List.countP_cons_of_neg (p := fun number : Fin 64 => hasBit mask number) bit,
          if_neg bit, ← Nat.zero_add (4 * _)]
        exact (takes_pure counts).bind ih

/-- There are four bytes for each bit of the mask. -/
theorem takes_readCounts (mask : UInt64) : Takes (4 * bitCount mask) (RowCounts.read mask) := by
  have all := takes_foldlM_readOne mask (List.finRange 64) .zero
  rwa [← Function.comp_def (hasBit mask) Fin.val, ← List.countP_map,
    List.map_coe_finRange_eq_range] at all

/-- Four more bytes follow if a flag says so. -/
theorem takes_readExtra (heapFlags : UInt8) :
    Takes (if heapFlags.toNat.testBit 6 then 4 else 0) (readExtra heapFlags) := by
  rw [readExtra]
  split
  · exact takes_word32.bind fun _ => takes_pure _
  · exact takes_pure ()

/-- A stream that is accepted is kept, and its tables are located behind the header. -/
theorem located_of_parse {stream : List UInt8} {allWide : Bool} {tables : TableStream}
    (h : parse stream allWide = .ok tables) :
    tables.stream = stream ∧ locate tables.present tables.sizing stream.length (List.finRange 64)
      tables.headerBytes = .ok tables.starts := by
  rw [parse] at h
  split at h
  · cases h
  · next long =>
    obtain ⟨⟨rows, behindCounts⟩, counts, h⟩ := Outcome.bind_eq_ok_iff.1 h
    obtain ⟨⟨_, behind⟩, extra, h⟩ := Outcome.bind_eq_ok_iff.1 h
    obtain ⟨starts, located, h⟩ := Outcome.bind_eq_ok_iff.1 h
    cases h
    refine ⟨rfl, ?_⟩
    obtain ⟨le, rfl⟩ := (takes_readCounts _).rest_eq counts
    obtain ⟨le', rfl⟩ := (takes_readExtra _).rest_eq extra
    dsimp only at located
    rw [← located, headerBytes]
    congr 1
    rw [List.length_take] at long
    simp only [List.length_drop] at le le' ⊢
    dsimp only [tableCount]
    omega

/-- Every sized table has a row size, whatever the sizes of indices. -/
theorem exists_rowSize? (sizing : Sizing) {table : Table} (mem : table ∈ Table.sized) :
    ∃ size, rowSize? sizing table.number = some size := by
  rw [Table.sized] at mem
  simp only [List.mem_cons, List.not_mem_nil, or_false] at mem
  rcases mem with rfl | rfl | rfl | rfl <;> exact ⟨_, rfl⟩

/-- The tables that are placed are the sized ones of the mask, if all of them have a known size. -/
theorem eq_filter_sized {present : UInt64} {order : List Table}
    (indices : order.map Table.index = (List.finRange 64).filter (isPlaced present))
    (sized : ∀ table ∈ order, table ∈ Table.sized) :
    order = Table.sized.filter fun table => hasBit present table.number := by
  have last : ∀ table ∈ Table.sized, table.number ≤ Table.methodDebugInformation.number := by
    decide
  refine List.map_injective_iff.2 (fun _ _ => Table.index_injective) ?_
  rw [indices]
  refine List.Pairwise.eq_of_mem_iff (r := (· < ·)) ((List.pairwise_lt_finRange 64).filter _)
    (List.pairwise_map.2 (Table.sized_ascending.filter _)) fun number => ?_
  constructor
  · intro mem
    have mem_order := mem
    rw [← indices] at mem_order
    obtain ⟨table, inside, rfl⟩ := List.mem_map.1 mem_order
    have bit := (Bool.and_eq_true_iff.1 (List.mem_filter.1 mem).2).1
    exact List.mem_map.2 ⟨table, List.mem_filter.2 ⟨sized table inside, bit⟩, rfl⟩
  · intro mem
    obtain ⟨table, inside, rfl⟩ := List.mem_map.1 mem
    obtain ⟨in_sized, bit⟩ := List.mem_filter.1 inside
    exact List.mem_filter.2 ⟨List.mem_finRange _,
      Bool.and_eq_true_iff.2 ⟨bit, decide_eq_true (last table in_sized)⟩⟩

/-- **The tables of a stream that is accepted are laid out** behind its header. -/
theorem exists_laidOut {stream : List UInt8} {allWide : Bool} {tables : TableStream}
    (h : parse stream allWide = .ok tables) : ∃ ranges, tables.LaidOut ranges := by
  obtain ⟨rfl, located⟩ := located_of_parse h
  obtain ⟨order, indices, sized, starts, bounds⟩ :=
    exists_tables_of_locate (List.pairwise_lt_finRange 64) located
  refine ⟨rangesFrom tables.sizing tables.headerBytes order, ?_, starts, fun range mem => ?_, ?_,
    isChain_rangesFrom .., pairwise_rangesFrom .., bounds⟩
  · rw [map_table_rangesFrom]
    exact eq_filter_sized indices sized
  · have listed : range.table ∈ order := by
      rw [← map_table_rangesFrom tables.sizing tables.headerBytes order]
      exact List.mem_map_of_mem mem
    obtain ⟨size, known⟩ := exists_rowSize? tables.sizing (sized _ listed)
    have stop := (stop_of_mem_rangesFrom mem).2
    rw [byteCount, known] at stop
    exact ⟨size, known, stop⟩
  · cases order with
    | nil => exact fun _ none => absurd none (Option.not_mem_none _)
    | cons table order =>
        intro range first
        cases first
        rfl

/-! ### Rows -/

/-- The rows of a table of a stream: as many as the header counts, each with its number and at its
place. A table that is absent has none. -/
structure HasRows (tables : TableStream) (ρ : Type) [TableRow ρ] [PlacedRow ρ] (rows : List ρ) :
    Prop where
  /-- The rows are read without an error. -/
  read : tables.rows ρ = .ok rows
  /-- A table that is absent has no rows. -/
  absent : tables.hasTable (TableRow.table ρ) = false → rows = []
  /-- A table that is present starts at a known place and has the rows that the header counts. -/
  present : tables.hasTable (TableRow.table ρ) = true →
    rows.length = (tables.sizing.rows.ofTable (TableRow.table ρ)).toNat ∧
    ∃ start, tables.starts.lookup (TableRow.table ρ).number = some start ∧
      ∀ i (h : i < rows.length), StandsAt tables.sizing tables.stream (i + 1)
        (start + i * TableRow.size ρ tables.sizing) rows[i]

/-- Every row of a table stands somewhere in the stream, and knows its number. -/
theorem HasRows.exists_standsAt {tables : TableStream} {ρ : Type} [TableRow ρ] [PlacedRow ρ]
    {rows : List ρ} (h : tables.HasRows ρ rows) {i : Nat} (lt : i < rows.length) :
    ∃ place, StandsAt tables.sizing tables.stream (i + 1) place rows[i] := by
  by_cases present : tables.hasTable (TableRow.table ρ)
  · obtain ⟨-, start, -, each⟩ := h.present present
    exact ⟨_, each i lt⟩
  · rw [h.absent (by simpa using present)] at lt
    exact absurd lt (Nat.not_lt_zero i)

/-- The start of a table is known exactly if it is present, and its range starts there. -/
theorem LaidOut.lookup_cases {tables : TableStream} {ranges : List TableRange}
    (h : tables.LaidOut ranges) {table : Table} (sized : table ∈ Table.sized) :
    (tables.hasTable table = false ∧ tables.starts.lookup table.number = none) ∨
      ∃ range ∈ ranges, range.table = table ∧ tables.hasTable table = true ∧
        tables.starts.lookup table.number = some range.start := by
  cases found : tables.starts.lookup table.number with
  | none =>
      refine .inl ⟨Bool.eq_false_iff.2 fun present => ?_, rfl⟩
      have mem : table ∈ ranges.map (·.table) := by
        rw [h.present]
        exact List.mem_filter.2 ⟨sized, present⟩
      obtain ⟨range, inside, rfl⟩ := List.mem_map.1 mem
      rw [h.starts, List.lookup_eq_none_iff] at found
      simpa using found _ (List.mem_map.2 ⟨range, inside, rfl⟩)
  | some start =>
      rw [h.starts] at found
      obtain ⟨front, back, split, -⟩ := List.lookup_eq_some_iff.1 found
      have mem : (table.number, start) ∈
          ranges.map fun range => (range.table.number, range.start) := by
        rw [split]
        exact List.mem_append_right _ List.mem_cons_self
      obtain ⟨range, inside, eq⟩ := List.mem_map.1 mem
      obtain ⟨number, rfl⟩ := Prod.mk.inj eq
      have named := Table.number_inj.1 number
      have listed : table ∈ ranges.map (·.table) := List.mem_map.2 ⟨range, inside, named⟩
      rw [h.present] at listed
      exact .inr ⟨range, inside, named, (List.mem_filter.1 listed).2, rfl⟩

/-- **All rows of a table are read**, if the tables of the stream are laid out. -/
theorem LaidOut.exists_hasRows {tables : TableStream} {ranges : List TableRange}
    (h : tables.LaidOut ranges) (ρ : Type) [TableRow ρ] [PlacedRow ρ]
    (sized : TableRow.table ρ ∈ Table.sized) : ∃ rows, tables.HasRows ρ rows := by
  rcases h.lookup_cases sized with ⟨absent, nowhere⟩ | ⟨range, mem, named, present, located⟩
  · refine ⟨[], ?_, fun _ => rfl, fun present => ?_⟩
    · rw [rows, nowhere]
    · rw [absent] at present
      cases present
  · obtain ⟨size, known, stop⟩ := h.sized range mem
    rw [named, PlacedRow.sized] at known
    cases known
    have inside := h.inside range mem
    rw [stop, named, Nat.mul_comm] at inside
    obtain ⟨found, read, length, each⟩ := exists_rowsAt (ρ := ρ) (UInt32.toNat_lt _) inside
    refine ⟨found, ?_, fun absent => ?_, fun _ => ⟨length, range.start, located, each⟩⟩
    · rw [rows, located]
      simp only
      rw [read]
      rfl
    · rw [absent] at present
      cases present

/-- **Tables are where their sizes say.** Whatever the bytes are, if the header of a tables stream
is accepted, then the tables of debug symbols that are present stand one behind the other in the
stream, and each of them has all the rows that the header counts, with their numbers and places. A
row takes as many bytes as its size says, for all widths of indices. -/
theorem tables_are_where_their_sizes_say {stream : List UInt8} {allWide : Bool}
    {tables : TableStream} (h : parse stream allWide = .ok tables) :
    tables.stream = stream ∧ (∃ ranges, tables.LaidOut ranges) ∧
      (∃ rows, tables.HasRows DocumentRow rows) ∧ (∃ rows, tables.HasRows MethodRow rows) ∧
      (∃ rows, tables.HasRows MapRow rows) ∧
      ∀ (sizing : Sizing) (number : UInt32) (place : Nat),
        Takes (TableRow.size DocumentRow sizing)
          (TableRow.read sizing number place : Reader DocumentRow) ∧
        Takes (TableRow.size MethodRow sizing)
          (TableRow.read sizing number place : Reader MethodRow) ∧
        Takes (TableRow.size MapRow sizing)
          (TableRow.read sizing number place : Reader MapRow) := by
  obtain ⟨ranges, laid⟩ := exists_laidOut h
  exact ⟨(located_of_parse h).1, ⟨ranges, laid⟩, laid.exists_hasRows DocumentRow (by decide),
    laid.exists_hasRows MethodRow (by decide), laid.exists_hasRows MapRow (by decide),
    fun sizing number place => ⟨PlacedRow.takes sizing number place,
      PlacedRow.takes sizing number place, PlacedRow.takes sizing number place⟩⟩

/-- A stream with a map of one row, two documents and one method. -/
def mixedStream : List UInt8 :=
  [0, 0, 0, 0, 2, 0, 0, 1] ++ [0, 0, 0, 0x80, 0, 0, 3, 0] ++ [0, 0, 0, 0, 0, 0, 0, 0] ++
    [1, 0, 0, 0, 2, 0, 0, 0, 1, 0, 0, 0] ++ [2, 0, 0, 0x31] ++
    [1, 0, 1, 0, 0, 0, 2, 0, 3, 0, 1, 0, 0, 0, 2, 0] ++ [1, 0, 5, 0]

/-- A stream with rows of three tables, and where they are. -/
theorem tables_are_where_their_sizes_say_mixedStream :
    ∃ tables, parse mixedStream false = .ok tables ∧
      tables.starts = [(0x1F, 36), (0x30, 40), (0x31, 56)] ∧ (∃ ranges, tables.LaidOut ranges) ∧
      ∃ rows, tables.HasRows DocumentRow rows := by
  have accepted : (·.starts) <$> parse mixedStream false =
      .ok [(0x1F, 36), (0x30, 40), (0x31, 56)] := by decide +kernel
  obtain ⟨tables, read, starts⟩ := Outcome.map_eq_ok_iff.1 accepted
  obtain ⟨-, laid, documents, -⟩ := tables_are_where_their_sizes_say read
  exact ⟨tables, read, starts, laid, documents⟩

end TableStream

end SymbolHistory
