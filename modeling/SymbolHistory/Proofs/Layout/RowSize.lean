import SymbolHistory.Layout.TableStream
import SymbolHistory.Proofs.Outcome

/-!
# Rows take what their sizes say

The places of tables are worked out from the sizes of rows, and rows are read index by index. For
both to fit together, a row must take as many bytes as its size says: it is read if there are that
many bytes, and cannot be read if there are fewer.

## Main definitions

* `Bytes.Takes` : a reader that takes a fixed number of bytes.
* `PlacedRow` : a kind of row that knows its number and its place.
* `StandsAt` : a row is what is read at a place of a stream.

## Main results

* `Bytes.Takes.bind` : what readers take one after the other adds up.
* `PlacedRow.takes` : every kind of row takes as many bytes as its size says.
* `exists_rowsAt` : rows that fit into a stream are read, one behind the other.
-/

namespace SymbolHistory

open Bytes

/-! ### Readers of fixed size -/

namespace Bytes

/-- A reader that takes `size` bytes if there are so many, and is out of bounds if not. -/
def Takes {α : Type} (size : Nat) (reader : Reader α) : Prop :=
  ∀ bytes, (size ≤ bytes.length → ∃ a, reader bytes = .ok (a, bytes.drop size)) ∧
    (bytes.length < size → reader bytes = .error .outOfBounds)

/-- A reader that reads nothing takes no bytes. -/
theorem takes_pure {α : Type} (a : α) : Takes 0 (pure a : Reader α) := fun _ =>
  ⟨fun _ => ⟨a, rfl⟩, fun lt => absurd lt (Nat.not_lt_zero _)⟩

/-- What readers take one after the other adds up. -/
theorem Takes.bind {α β : Type} {m n : Nat} {first : Reader α} {next : α → Reader β}
    (h : Takes m first) (h' : ∀ a, Takes n (next a)) : Takes (m + n) (first >>= next) := by
  intro bytes
  by_cases room : m ≤ bytes.length
  · obtain ⟨a, taken⟩ := (h bytes).1 room
    obtain ⟨enough, short⟩ := h' a (bytes.drop m)
    rw [List.length_drop] at enough short
    rw [List.drop_drop] at enough
    rw [bind_of_ok taken]
    exact ⟨fun le => enough (by omega), fun lt => short (by omega)⟩
  · rw [bind_of_error ((h bytes).2 (by omega))]
    exact ⟨fun le => absurd le (by omega), fun _ => rfl⟩

/-- Taking bytes takes that many. -/
theorem takes_take (width : Nat) : Takes width (take width) := by
  intro bytes
  rw [take, List.length_take]
  constructor
  · intro le
    exact ⟨_, if_pos (Nat.min_eq_left le)⟩
  · intro lt
    exact if_neg (by omega)

/-- So does a word of a width. -/
theorem takes_word (width : Nat) : Takes width (word width) :=
  (takes_take width).bind fun _ => takes_pure _

/-- A word of 32 bits takes four bytes. -/
theorem takes_word32 : Takes 4 word32 :=
  (takes_word 4).bind fun _ => takes_pure _

/-- What is left of the bytes by a reader of fixed size. -/
theorem Takes.rest_eq {α : Type} {size : Nat} {reader : Reader α} {bytes rest : List UInt8} {a : α}
    (h : Takes size reader) (read : reader bytes = .ok (a, rest)) :
    size ≤ bytes.length ∧ rest = bytes.drop size := by
  by_cases le : size ≤ bytes.length
  · obtain ⟨b, taken⟩ := (h bytes).1 le
    obtain ⟨-, rfl⟩ := Prod.mk.inj (Except.ok.inj (read.symm.trans taken))
    exact ⟨le, rfl⟩
  · rw [(h bytes).2 (Nat.lt_of_not_le le)] at read
    cases read

end Bytes

/-- An index takes its width. -/
theorem takes_readIndex (wide : Bool) : Takes (Sizing.width wide) (readIndex wide) :=
  (takes_word _).bind fun _ => takes_pure _

/-! ### Single rows -/

/-- A kind of row that knows its number and its place, and takes as many bytes as its size says. -/
class PlacedRow (ρ : Type) [TableRow ρ] where
  /-- The number of a row, from 1. -/
  rid : ρ → UInt32
  /-- Where a row starts in the stream. -/
  offset : ρ → Nat
  /-- The size is the one that tables are placed by. -/
  sized (sizing : Sizing) :
    rowSize? sizing (TableRow.table ρ).number = some (TableRow.size ρ sizing)
  /-- A row takes as many bytes as its size says. -/
  takes (sizing : Sizing) (number : UInt32) (place : Nat) :
    Takes (TableRow.size ρ sizing) (TableRow.read sizing number place : Reader ρ)
  /-- A row has the number and the place that it is read with. -/
  told {sizing : Sizing} {number : UInt32} {place : Nat} {bytes rest : List UInt8} {row : ρ} :
    TableRow.read sizing number place bytes = .ok (row, rest) →
      rid row = number ∧ offset row = place

instance : PlacedRow DocumentRow where
  rid row := row.rid
  offset row := row.offset
  sized _ := rfl
  takes sizing number place := by
    have total := (takes_readIndex sizing.wideBlobs).bind fun name =>
      (takes_readIndex sizing.wideGuids).bind fun hashAlgorithm =>
        (takes_readIndex sizing.wideBlobs).bind fun hash =>
          (takes_readIndex sizing.wideGuids).bind fun language => takes_pure
            (⟨number, .ofRow .document number, place, name, hashAlgorithm, hash, language⟩ :
              DocumentRow)
    convert total using 1
    · change 2 * Sizing.width _ + 2 * Sizing.width _ = _
      omega
    · rfl
  told read := by
    obtain ⟨_, _, -, read⟩ := bind_eq_ok_iff.1 read
    obtain ⟨_, _, -, read⟩ := bind_eq_ok_iff.1 read
    obtain ⟨_, _, -, read⟩ := bind_eq_ok_iff.1 read
    obtain ⟨_, _, -, read⟩ := bind_eq_ok_iff.1 read
    obtain ⟨rfl, -⟩ := pure_eq_ok_iff.1 read
    exact ⟨rfl, rfl⟩

instance : PlacedRow MethodRow where
  rid row := row.rid
  offset row := row.offset
  sized _ := rfl
  takes sizing number place :=
    (takes_readIndex (sizing.isWide .document)).bind fun _ =>
      (takes_readIndex sizing.wideBlobs).bind fun _ => takes_pure _
  told read := by
    obtain ⟨_, _, -, read⟩ := bind_eq_ok_iff.1 read
    obtain ⟨_, _, -, read⟩ := bind_eq_ok_iff.1 read
    obtain ⟨rfl, -⟩ := pure_eq_ok_iff.1 read
    exact ⟨rfl, rfl⟩

instance : PlacedRow MapRow where
  rid row := row.rid
  offset row := row.offset
  sized _ := rfl
  takes _ _ _ := takes_word32.bind fun _ => takes_pure _
  told read := by
    obtain ⟨_, _, -, read⟩ := bind_eq_ok_iff.1 read
    obtain ⟨rfl, -⟩ := pure_eq_ok_iff.1 read
    exact ⟨rfl, rfl⟩

/-! ### Consecutive rows -/

section Consecutive

variable {ρ : Type} [TableRow ρ] [PlacedRow ρ] {sizing : Sizing} {stream : List UInt8}

/-- A row is what is read at byte `place` of a stream as row `number`, and it knows both. -/
structure StandsAt (sizing : Sizing) (stream : List UInt8) (number place : Nat) (row : ρ) :
    Prop where
  /-- The row knows its number. -/
  rid : (PlacedRow.rid row).toNat = number
  /-- The row knows its place. -/
  offset : PlacedRow.offset row = place
  /-- The row ends inside the stream. -/
  inside : place + TableRow.size ρ sizing ≤ stream.length
  /-- Reading at the place yields the row and goes on behind it. -/
  read : TableRow.read sizing (UInt32.ofNat number) place (stream.drop place) =
    .ok (row, stream.drop (place + TableRow.size ρ sizing))

/-- A row that fits into a stream is read. -/
theorem exists_standsAt {number place : Nat} (small : number < UInt32.size)
    (inside : place + TableRow.size ρ sizing ≤ stream.length) :
    ∃ row : ρ, StandsAt sizing stream number place row := by
  have takes : Takes _ (TableRow.read sizing (UInt32.ofNat number) place : Reader ρ) :=
    PlacedRow.takes sizing _ place
  obtain ⟨row, read⟩ := (takes (stream.drop place)).1 (by rw [List.length_drop]; omega)
  rw [List.drop_drop] at read
  obtain ⟨rid, offset⟩ := PlacedRow.told read
  exact ⟨row, by rw [rid, UInt32.toNat_ofNat_of_lt' small], offset, inside, read⟩

/-- Rows that fit into a stream are read behind those that are found already. -/
theorem exists_collectRows_of_le {count number place : Nat}
    (small : number + count ≤ UInt32.size)
    (inside : place + count * TableRow.size ρ sizing ≤ stream.length) (found : Array ρ) :
    ∃ rows : List ρ, collectRows sizing count number place found (stream.drop place) =
        .ok (found ++ rows, stream.drop (place + count * TableRow.size ρ sizing)) ∧
      rows.length = count ∧ ∀ i (h : i < rows.length),
        StandsAt sizing stream (number + i) (place + i * TableRow.size ρ sizing) rows[i] := by
  induction count generalizing number place found with
  | zero => exact ⟨[], by simp [collectRows]; rfl, rfl, fun _ h => absurd h (Nat.not_lt_zero _)⟩
  | succ count ih =>
      rw [Nat.succ_mul] at inside
      obtain ⟨row, stands⟩ := exists_standsAt (ρ := ρ) (show number < UInt32.size by omega)
        (show place + TableRow.size ρ sizing ≤ stream.length by omega)
      have behind : place + TableRow.size ρ sizing + count * TableRow.size ρ sizing ≤
          stream.length := by omega
      obtain ⟨rows, read, length, each⟩ :=
        ih (show number + 1 + count ≤ UInt32.size by omega) behind (found.push row)
      refine ⟨row :: rows, ?_, congrArg Nat.succ length, fun i h => ?_⟩
      · rw [collectRows]
        simp only [stands.read, read, Nat.succ_mul]
        rw [Nat.add_right_comm place, Nat.add_assoc place]
        simp
      · cases i with
        | zero => simpa using stands
        | succ i =>
            have placed := each i (Nat.lt_of_succ_lt_succ h)
            rw [Nat.add_right_comm, Nat.add_assoc number, Nat.add_right_comm place,
              Nat.add_assoc place, ← Nat.succ_mul] at placed
            exact placed

/-- **Rows that fit into a stream are read**, each where the sizes of those in front of it say. -/
theorem exists_rowsAt {count place : Nat} (small : count < UInt32.size)
    (inside : place + count * TableRow.size ρ sizing ≤ stream.length) :
    ∃ rows : List ρ, rowsAt ρ sizing stream place count =
        .ok (rows, place + count * TableRow.size ρ sizing) ∧
      rows.length = count ∧ ∀ i (h : i < rows.length),
        StandsAt sizing stream (i + 1) (place + i * TableRow.size ρ sizing) rows[i] := by
  obtain ⟨rows, read, length, each⟩ := exists_collectRows_of_le (ρ := ρ)
    (show 1 + count ≤ UInt32.size by omega) inside #[]
  refine ⟨rows, ?_, length, fun i h => ?_⟩
  · rw [rowsAt, read]
    simp
  · rw [Nat.add_comm i 1]
    exact each i h

end Consecutive

end SymbolHistory
