import SymbolHistory.Layout.TableStream
import SymbolHistory.Proofs.Layout.RowCounts

/-!
# Rows are read back

Rows stand one behind the other, so reading them is a matter of reading one. Every row is read with
its own number, which is why the row readers are asked for the row at each place.

## Main results

* `exists_collectRows` : rows are read from what they are written as, one behind the other.
* `read_documentRow`, `read_methodRow`, `read_mapRow` : single rows.
* `TableStream.Offers.rows` : the rows of a table that a tables stream offers.
-/

namespace SymbolHistory

open Bytes

/-! ### Consecutive rows -/

/-- **Rows are read from what they are written as.** If what is written for the member at each place
reads as a row that suits it, then the whole list reads as rows that suit its members. -/
theorem exists_collectRows {ρ α : Type} [TableRow ρ] {sizing : Sizing} {encode : α → List UInt8}
    {Suits : ρ → α → Prop} {as : List α} {first : Nat}
    (reads : ∀ i (h : i < as.length) offset rest, ∃ row,
      TableRow.read sizing (UInt32.ofNat (first + i)) offset (encode as[i] ++ rest) =
        .ok (row, rest) ∧ Suits row as[i])
    (offset : Nat) (found : Array ρ) (rest : List UInt8) :
    ∃ rows : List ρ, collectRows sizing as.length first offset found (as.flatMap encode ++ rest) =
      .ok (found ++ rows, rest) ∧ List.Forall₂ Suits rows as := by
  induction as generalizing first offset found with
  | nil => exact ⟨[], rfl, .nil⟩
  | cons a as ih =>
      obtain ⟨row, read, suits⟩ := reads 0 (Nat.zero_lt_succ _) offset (as.flatMap encode ++ rest)
      have reads_tail : ∀ i (h : i < as.length) offset rest, ∃ row,
          TableRow.read sizing (UInt32.ofNat (first + 1 + i)) offset (encode as[i] ++ rest) =
            .ok (row, rest) ∧ Suits row as[i] := by
        intro i h offset rest
        rw [show first + 1 + i = first + (i + 1) by omega]
        exact reads (i + 1) (Nat.succ_lt_succ h) offset rest
      obtain ⟨rows, others, suit⟩ :=
        ih reads_tail (offset + TableRow.size ρ sizing) (found.push row)
      refine ⟨row :: rows, ?_, .cons suits suit⟩
      rw [Nat.add_zero, List.getElem_cons_zero] at read
      rw [List.length_cons, collectRows, List.flatMap_cons, List.append_assoc]
      simp only [read, others]
      simp

/-! ### Single rows -/

/-- An index fits into its width. -/
def IndexFits (wide : Bool) (index : UInt32) : Prop :=
  wide ∨ index.toNat < UInt16.size

/-- Indices are wide where narrow ones are not enough, so every index up to the size fits. -/
theorem indexFits_of_le {index : UInt32} {size : Nat} (le : index.toNat ≤ size) :
    IndexFits (decide (UInt16.size ≤ size)) index := by
  by_cases wide : UInt16.size ≤ size
  · exact .inl (decide_eq_true wide)
  · exact .inr (by omega)

/-- A document row is read back. -/
theorem read_documentRow {sizing : Sizing} {name hashAlgorithm hash language : UInt32}
    (name_fits : IndexFits sizing.wideBlobs name)
    (algorithm_fits : IndexFits sizing.wideGuids hashAlgorithm)
    (hash_fits : IndexFits sizing.wideBlobs hash)
    (language_fits : IndexFits sizing.wideGuids language) (rid : UInt32) (offset : Nat)
    (rest : List UInt8) :
    TableRow.read sizing rid offset
      (encodeIndex sizing.wideBlobs name ++ encodeIndex sizing.wideGuids hashAlgorithm ++
        encodeIndex sizing.wideBlobs hash ++ encodeIndex sizing.wideGuids language ++ rest) =
      .ok ((⟨rid, .ofRow .document rid, offset, name, hashAlgorithm, hash, language⟩ :
        DocumentRow), rest) := by
  simp only [List.append_assoc]
  change (readIndex sizing.wideBlobs >>= _) _ = _
  rw [bind_eq_ok_iff]
  refine ⟨name, _, readIndex_encodeIndex _ name_fits, ?_⟩
  rw [bind_eq_ok_iff]
  refine ⟨hashAlgorithm, _, readIndex_encodeIndex _ algorithm_fits, ?_⟩
  rw [bind_eq_ok_iff]
  refine ⟨hash, _, readIndex_encodeIndex _ hash_fits, ?_⟩
  rw [bind_eq_ok_iff]
  exact ⟨language, _, readIndex_encodeIndex _ language_fits, rfl⟩

/-- A method row is read back. -/
theorem read_methodRow {sizing : Sizing} {document lineTable : UInt32}
    (document_fits : IndexFits (sizing.isWide .document) document)
    (lineTable_fits : IndexFits sizing.wideBlobs lineTable) (rid : UInt32) (offset : Nat)
    (rest : List UInt8) :
    TableRow.read sizing rid offset (encodeIndex (sizing.isWide .document) document ++
        encodeIndex sizing.wideBlobs lineTable ++ rest) =
      .ok ((⟨rid, .ofRow .methodDebugInformation rid, offset, document, lineTable⟩ : MethodRow),
        rest) := by
  simp only [List.append_assoc]
  change (readIndex (sizing.isWide .document) >>= _) _ = _
  rw [bind_eq_ok_iff]
  refine ⟨document, _, readIndex_encodeIndex _ document_fits, ?_⟩
  rw [bind_eq_ok_iff]
  exact ⟨lineTable, _, readIndex_encodeIndex _ lineTable_fits, rfl⟩

/-- A row of the map is read back. -/
theorem read_mapRow (sizing : Sizing) (token : Token) (rid : UInt32) (offset : Nat)
    (rest : List UInt8) :
    TableRow.read sizing rid offset (toLittle 4 token.value.toNat ++ rest) =
      .ok ((⟨rid, offset, token⟩ : MapRow), rest) := by
  change (word32 >>= _) _ = _
  rw [bind_eq_ok_iff]
  exact ⟨token.value, rest, word32_append _ _, rfl⟩

/-! ### Tables -/

namespace TableStream

/-- A tables stream offers `count` rows of a table, written as `bytes`. A table without rows is
absent. -/
structure Offers (tables : TableStream) (table : Table) (count : Nat) (bytes : List UInt8) :
    Prop where
  /-- The header has the number of rows. -/
  counted : (tables.sizing.rows.ofTable table).toNat = count
  /-- The rows stand where the table starts. -/
  located : (count = 0 ∧ tables.starts.lookup table.number = none) ∨
    ∃ start rest, tables.starts.lookup table.number = some start ∧
      tables.stream.drop start = bytes ++ rest

/-- **The rows of a table are read from where the stream offers them.** -/
theorem Offers.rows {ρ α : Type} [TableRow ρ] {tables : TableStream} {encode : α → List UInt8}
    (Suits : ρ → α → Prop) {as : List α}
    (h : tables.Offers (TableRow.table ρ) as.length (as.flatMap encode))
    (reads : ∀ i (h : i < as.length) offset rest, ∃ row,
      TableRow.read tables.sizing (UInt32.ofNat (1 + i)) offset (encode as[i] ++ rest) =
        .ok (row, rest) ∧ Suits row as[i]) :
    ∃ rows, tables.rows ρ = .ok rows ∧ List.Forall₂ Suits rows as := by
  obtain ⟨none, absent⟩ | ⟨start, rest, located, placed⟩ := h.located
  · obtain rfl := List.length_eq_zero_iff.1 none
    refine ⟨[], ?_, .nil⟩
    rw [TableStream.rows, absent]
  · obtain ⟨rows, read, suit⟩ := exists_collectRows reads start #[] rest
    refine ⟨rows, ?_, suit⟩
    rw [TableStream.rows, located]
    simp only
    rw [rowsAt, h.counted, placed, read]
    simp [Functor.map, Except.map]

/-- Rows that resolve to values are read from where the stream offers them. -/
theorem Offers.mapM_rows {ρ γ δ : Type} [TableRow ρ] {tables : TableStream}
    (form : γ → List UInt8) (resolve : ρ → Except Error δ) {cells : List γ} {values : List δ}
    (h : tables.Offers (TableRow.table ρ) cells.length (cells.flatMap form))
    (same_length : cells.length = values.length)
    (reads : ∀ i (hc : i < cells.length) (hv : i < values.length) offset rest, ∃ row,
      TableRow.read tables.sizing (UInt32.ofNat (1 + i)) offset (form cells[i] ++ rest) =
        .ok (row, rest) ∧ resolve row = .ok values[i]) :
    ∃ rows, tables.rows ρ = .ok rows ∧ rows.mapM resolve = .ok values := by
  -- Every member is a pair of cells and the value that they are to give.
  have offers : tables.Offers (TableRow.table ρ) (cells.zip values).length
      ((cells.zip values).flatMap fun pair => form pair.1) := by
    rw [List.length_zip, ← same_length, Nat.min_self, ← List.flatMap_map, List.map_fst_zip
      (Nat.le_of_eq same_length)]
    exact h
  obtain ⟨rows, read, suit⟩ := Offers.rows (fun row pair => resolve row = .ok pair.2) offers
    fun i lt offset rest => by
      rw [List.length_zip, ← same_length, Nat.min_self] at lt
      simp only [List.getElem_zip]
      exact reads i lt (same_length ▸ lt) offset rest
  refine ⟨rows, read, Outcome.mapM_eq_ok_iff.2 ?_⟩
  rw [← List.map_snd_zip (Nat.le_of_eq same_length.symm), List.forall₂_map_right_iff]
  exact suit

end TableStream

end SymbolHistory
