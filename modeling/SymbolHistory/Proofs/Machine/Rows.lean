import SymbolHistory.Proofs.Machine.Compressed
import SymbolHistory.Layout.Row
import SymbolHistory.Layout.ModuleInfo

/-!
# Table rows on a machine

Which tables there are is told by the bits of a mask, which a machine looks at with shifts. How many
rows a table has stands in an array with one place for each of the 64 possible tables. The sizes of
rows are added up in eight bits, and tokens are put together with shifts.

## Main definitions

* `maskHas`, `readCounts`, `rowCount` : the tables that are present and the numbers of their rows.
* `moduleInfo` : the module that symbols belong to.
* `MachineRow` : how a machine sizes and reads a kind of row.
* `readRows` : consecutive rows.

## Main results

* `moduleInfo_eq` : a machine reads the module info that the library reads.
* `agrees_readRows` : and the rows that the library reads.
-/

namespace SymbolHistory.Machine

open Bytes

/-! ### Row counts -/

/-- Whether a mask has the bit of a table number. -/
def maskHas (mask : UInt64) (number : Nat) : Exec Bool := do
  let bit ← shiftLeft 64 1 number
  return mask.toNat &&& bit ≠ 0

/-- The next 32-bit word. -/
def readWord32 (data : List UInt8) : Scan UInt32 := do
  return UInt32.ofNat (← readWord data 4)

/-- The entries with another one for a number. -/
def enter {α : Type} {size : Nat} (entries : Vector α size) (number : Fin size) (entry : α) :
    Vector α size :=
  entries.set number entry number.isLt

/-- Reads the row count of a table, if the mask has it. -/
def readCount (data : List UInt8) (mask : UInt64) (counts : RowCounts) (number : Fin 64) :
    Scan RowCounts := do
  let present ← maskHas mask number
  if present then
    return enter counts number (← readWord32 data)
  else
    return counts

/-- Reads the row counts of the tables in a mask. -/
def readCounts (data : List UInt8) (mask : UInt64) : Scan RowCounts :=
  (List.finRange 64).foldlM (readCount data mask) .zero

/-- The row count of a table number. -/
def rowCount (counts : RowCounts) (number : Nat) : Exec UInt32 :=
  index counts.toList number

/-- A bit of a mask can be looked at if the mask has it. -/
theorem maskHas_eq (mask : UInt64) {number : Nat} (h : number < 64) :
    maskHas mask number = pure (hasBit mask number) := by
  have bit : (1 <<< number) % (1 <<< 64) = 2 ^ number := by
    rw [Nat.one_shiftLeft, Nat.one_shiftLeft, Nat.mod_eq_of_lt (Nat.pow_lt_pow_right (by decide) h)]
  rw [maskHas, shiftLeft_of_lt h, pure_bind, bit, Nat.and_two_pow, hasBit]
  cases mask.toNat.testBit number <;> simp

/-- Words of 32 bits are read. -/
theorem performs_word32 {data : List UInt8} (bounded : data.length < objectBound) :
    Performs data (readWord32 data) word32 :=
  (performs_word bounded 4).bind fun _ => performs_pure _

/-- A count is read for each bit of the mask. -/
theorem performs_readCounts {data : List UInt8} (bounded : data.length < objectBound)
    (mask : UInt64) : Performs data (readCounts data mask) (RowCounts.read mask) := by
  refine Performs.foldlM (fun counts number => ?_) _ _
  refine .exec_bind (maskHas_eq mask number.isLt) (.ite ?_ (performs_pure _))
  exact (performs_word32 bounded).bind fun _ => performs_pure _

/-- The item at a place of an array is there. -/
theorem index_toList {α : Type} {size place : Nat} (items : Vector α size) (h : place < size) :
    index items.toList place = pure (items.get ⟨place, h⟩) :=
  index_of_getElem? (by
    rw [List.getElem?_eq_getElem (by rw [Vector.length_toList]; exact h)]
    rfl)

/-- There is a count for every table. -/
theorem rowCount_eq (counts : RowCounts) {number : Nat} (h : number < 64) :
    rowCount counts number = pure (counts.get ⟨number, h⟩) :=
  index_toList counts h

/-! ### Tokens -/

/-- The token of a row. -/
def rowToken (table : Table) (row : UInt32) : Exec Token := do
  let high ← shiftLeft 32 table.number 24
  return ⟨UInt32.ofNat (high ||| row.toNat &&& 0xFFFFFF)⟩

/-- The table number of a token. -/
def tokenTable (token : Token) : Exec Nat :=
  shiftRight 32 token.value.toNat 24

/-- The token of a row is put together by shifts that fit. -/
theorem rowToken_eq (table : Table) (row : UInt32) :
    rowToken table row = pure (.ofRow table row) := by
  have small := table.number_lt
  have high : table.number <<< 24 % (1 <<< 32) = table.number <<< 24 :=
    Nat.mod_eq_of_lt (by rw [Nat.shiftLeft_eq, Nat.one_shiftLeft]; omega)
  have low : row.toNat &&& 0xFFFFFF = row.toNat % 0x1000000 :=
    Nat.and_two_pow_sub_one_eq_mod row.toNat 24
  have joined : table.number <<< 24 ||| row.toNat % 0x1000000 =
      table.number * 0x1000000 + row.toNat % 0x1000000 :=
    shiftLeft_or table.number (Nat.mod_lt _ (by decide))
  rw [rowToken, shiftLeft_of_lt (by decide), pure_bind, high, low, joined]
  rfl

/-- The table of a token is taken apart again. -/
theorem tokenTable_eq (token : Token) : tokenTable token = pure token.table := by
  rw [tokenTable, shiftRight_of_lt (by decide), Nat.shiftRight_eq_div_pow]
  rfl

/-! ### The module -/

/-- Reads what a module info says behind its identifier. -/
def moduleFields (stream id : List UInt8) : Scan ModuleInfo := do
  let entryPoint : Token := ⟨← readWord32 stream⟩
  let table ← tokenTable entryPoint
  if entryPoint.isNull || table == Table.methodDef.number then
    let referenced ← readWord stream 8
    let rows ← readCounts stream (UInt64.ofNat referenced)
    return ⟨Vector.ofFn fun i => id[i.val]?.getD 0, entryPoint, UInt64.ofNat referenced, rows⟩
  else
    fail (.malformed (.entryPoint entryPoint))

/-- The module info in a stream. -/
def moduleInfo (stream : List UInt8) : Exec ModuleInfo := do
  if stream.length < 32 then fail .outOfBounds
  else
    let id ← copy 20 (← slice stream 0 20)
    let (info, _) ← moduleFields stream id 20
    return info

/-- What the library reads behind the identifier of a module. -/
def moduleRest (id : List UInt8) : Reader ModuleInfo := do
  let entryPoint : Token := ⟨← word32⟩
  if entryPoint.isNull || entryPoint.refersTo .methodDef then
    let referenced ← word64
    let rows ← RowCounts.read referenced
    return ⟨Vector.ofFn fun i => id[i.val]?.getD 0, entryPoint, referenced, rows⟩
  else
    throw (.malformed (.entryPoint entryPoint))

/-- The fields of a module behind its identity are read. -/
theorem performs_moduleFields {stream : List UInt8} (bounded : stream.length < objectBound)
    (id : List UInt8) : Performs stream (moduleFields stream id) (moduleRest id) := by
  refine (performs_word32 bounded).bind fun entry => ?_
  refine .exec_bind (tokenTable_eq ⟨entry⟩) (.ite ?_ (performs_fail _))
  unfold word64
  rw [bind_assoc]
  exact (performs_word bounded 8).bind fun referenced =>
    (performs_readCounts bounded _).bind fun _ => performs_pure _

/-- Of a value and a position the value is kept. -/
theorem Agrees.map_fst {α : Type} {data : List UInt8} {position : Nat} {found : Exec (α × Nat)}
    {result : Except Error (α × List UInt8)} (h : Agrees data position found result) :
    (found >>= fun r => pure r.1) = ofExcept ((·.1) <$> result) := by
  cases h <;> rfl

/-- **A machine reads the module info that the library reads, or fails as it does.** -/
theorem moduleInfo_eq {stream : List UInt8} (bounded : stream.length < objectBound) :
    moduleInfo stream = ofExcept (ModuleInfo.decode stream) := by
  rw [moduleInfo, ModuleInfo.decode, ofExcept_ite]
  by_cases short : stream.length < 32
  · rw [if_pos short, if_pos (by rw [List.length_take]; omega)]
    rfl
  · rw [if_neg short, if_neg (by rw [List.length_take]; omega), slice_of_le (by decide) (by omega)]
    have length : (stream.take 20).length = 20 := by
      rw [List.length_take]
      omega
    have read : ModuleInfo.read stream = moduleRest (stream.take 20) (stream.drop 20) := by
      change take 20 stream >>= _ = _
      rw [take, if_pos length]
      rfl
    rw [pure_bind, List.drop_zero, Nat.sub_zero, copy_of_length length, pure_bind, read]
    exact (performs_moduleFields bounded _ 20 (by omega)).map_fst

/-! ### Indices -/

/-- The next index of four or two bytes. -/
def readPlaced (data : List UInt8) (wide : Bool) : Scan UInt32 := do
  return UInt32.ofNat (← readWord data (Sizing.width wide))

/-- Whether an index into a table takes four bytes. -/
def isWide (sizing : Sizing) (table : Table) : Exec Bool := do
  let count ← rowCount sizing.rows table.number
  return sizing.allWide || UInt16.size ≤ count.toNat

/-- An index of either width is read. -/
theorem performs_readPlaced {data : List UInt8} (bounded : data.length < objectBound)
    (wide : Bool) : Performs data (readPlaced data wide) (readIndex wide) :=
  (performs_word bounded _).bind fun _ => performs_pure _

/-- It takes as many bytes as its width says. -/
theorem moves_readPlaced (data : List UInt8) (wide : Bool) :
    Moves (Sizing.width wide) (readPlaced data wide) :=
  (moves_readWord _).bind fun _ => moves_pure _

/-- Whether indices into a table are wide is looked up in its count. -/
theorem isWide_eq (sizing : Sizing) (table : Table) :
    isWide sizing table = pure (sizing.isWide table) := by
  rw [isWide, rowCount_eq _ table.number_lt, pure_bind]
  rfl

/-! ### Rows -/

/-- How a machine sizes and reads a kind of row. -/
class MachineRow (ρ : Type) [TableRow ρ] where
  /-- The number of bytes of a row. -/
  rowSize : Sizing → Exec Nat
  /-- Reads row number `rid`. -/
  readRow : (data : List UInt8) → (sizing : Sizing) → (rid : UInt32) → Scan ρ
  /-- The size is that of the library. -/
  rowSize_eq (sizing : Sizing) : rowSize sizing = pure (TableRow.size ρ sizing)
  /-- Rows are not large. -/
  size_le (sizing : Sizing) : TableRow.size ρ sizing ≤ 16
  /-- What is read is what the library reads. -/
  agrees {data : List UInt8} (bounded : data.length < objectBound) (sizing : Sizing) (rid : UInt32)
    {position : Nat} (inside : position ≤ data.length) :
    Agrees data position (readRow data sizing rid position)
      (TableRow.read sizing rid position (data.drop position))
  /-- A row takes as many bytes as its size says. -/
  moves (data : List UInt8) (sizing : Sizing) (rid : UInt32) :
    Moves (TableRow.size ρ sizing) (readRow data sizing rid)

instance : MachineRow DocumentRow where
  rowSize sizing := do
    let name ← add UInt8.size sizing.blobBytes sizing.guidBytes
    let hash ← add UInt8.size name sizing.blobBytes
    add UInt8.size hash sizing.guidBytes
  readRow data sizing rid := do
    let token ← rowToken .document rid
    let offset ← get
    let name ← readPlaced data sizing.wideBlobs
    let hashAlgorithm ← readPlaced data sizing.wideGuids
    let hash ← readPlaced data sizing.wideBlobs
    let language ← readPlaced data sizing.wideGuids
    return ⟨rid, token, offset, name, hashAlgorithm, hash, language⟩
  rowSize_eq sizing := by
    have blob : sizing.blobBytes ≤ 4 := Sizing.width_le _
    have guid : sizing.guidBytes ≤ 4 := Sizing.width_le _
    change _ = pure (2 * sizing.blobBytes + 2 * sizing.guidBytes)
    rw [add_of_lt (by simp only [UInt8.size]; omega), pure_bind,
      add_of_lt (by simp only [UInt8.size]; omega), pure_bind,
      add_of_lt (by simp only [UInt8.size]; omega)]
    exact congrArg pure (by omega)
  size_le sizing := by
    have blob : sizing.blobBytes ≤ 4 := Sizing.width_le _
    have guid : sizing.guidBytes ≤ 4 := Sizing.width_le _
    change 2 * sizing.blobBytes + 2 * sizing.guidBytes ≤ 16
    omega
  agrees bounded sizing rid position inside := by
    rw [exec_bind_apply (rowToken_eq _ _), get_bind_apply]
    exact (performs_readPlaced bounded _).bind (fun _ => (performs_readPlaced bounded _).bind
      fun _ => (performs_readPlaced bounded _).bind fun _ => (performs_readPlaced bounded _).bind
        fun _ => performs_pure _) position inside
  moves data sizing rid := by
    have total := (moves_exec (rowToken .document rid)).bind fun token => moves_get.bind
      fun offset => (moves_readPlaced data sizing.wideBlobs).bind fun name =>
        (moves_readPlaced data sizing.wideGuids).bind fun hashAlgorithm =>
          (moves_readPlaced data sizing.wideBlobs).bind fun hash =>
            (moves_readPlaced data sizing.wideGuids).bind fun language =>
              moves_pure (⟨rid, token, offset, name, hashAlgorithm, hash, language⟩ : DocumentRow)
    convert total using 1
    change 2 * Sizing.width _ + 2 * Sizing.width _ = _
    omega

instance : MachineRow MethodRow where
  rowSize sizing := do
    let wide ← isWide sizing .document
    add UInt8.size (Sizing.width wide) sizing.blobBytes
  readRow data sizing rid := do
    let token ← rowToken .methodDebugInformation rid
    let offset ← get
    let wide ← isWide sizing .document
    let document ← readPlaced data wide
    let lineTable ← readPlaced data sizing.wideBlobs
    return ⟨rid, token, offset, document, lineTable⟩
  rowSize_eq sizing := by
    have blob : sizing.blobBytes ≤ 4 := Sizing.width_le _
    have document : Sizing.width (sizing.isWide .document) ≤ 4 := Sizing.width_le _
    rw [isWide_eq, pure_bind, add_of_lt (by simp only [UInt8.size]; omega)]
    rfl
  size_le sizing := by
    have blob : sizing.blobBytes ≤ 4 := Sizing.width_le _
    have document : sizing.tableBytes .document ≤ 4 := Sizing.width_le _
    change sizing.tableBytes .document + sizing.blobBytes ≤ 16
    omega
  agrees bounded sizing rid position inside := by
    rw [exec_bind_apply (rowToken_eq _ _), get_bind_apply, exec_bind_apply (isWide_eq _ _)]
    exact (performs_readPlaced bounded _).bind (fun _ => (performs_readPlaced bounded _).bind
      fun _ => performs_pure _) position inside
  moves data sizing rid := by
    have total := (moves_exec (rowToken .methodDebugInformation rid)).bind fun token =>
      moves_get.bind fun offset => (moves_readPlaced data (sizing.isWide .document)).bind
        fun document => (moves_readPlaced data sizing.wideBlobs).bind fun lineTable =>
          moves_pure (⟨rid, token, offset, document, lineTable⟩ : MethodRow)
    rw [isWide_eq]
    convert total using 1
    · change Sizing.width _ + Sizing.width _ = _
      omega
    · rfl

instance : MachineRow MapRow where
  rowSize _ := pure 4
  readRow data _ rid := do
    let offset ← get
    let token ← readWord32 data
    return ⟨rid, offset, ⟨token⟩⟩
  rowSize_eq _ := rfl
  size_le _ := by
    change 4 ≤ 16
    decide
  agrees bounded sizing rid position inside := by
    rw [get_bind_apply]
    exact (performs_word32 bounded).bind (fun _ => performs_pure _) position inside
  moves data sizing rid :=
    moves_get.bind fun _ => ((moves_readWord 4).bind fun _ => moves_pure _).bind
      fun _ => moves_pure _

section Consecutive

variable {ρ : Type} [TableRow ρ] [MachineRow ρ]

/-- Reads `count` rows behind the ones in `found`, from row number `rid` on. -/
def readRows (data : List UInt8) (sizing : Sizing) :
    (count rid : Nat) → (found : Array ρ) → Scan (Array ρ)
  | 0, _, found => pure found
  | count + 1, rid, found => do
    let row ← MachineRow.readRow data sizing (UInt32.ofNat rid)
    readRows data sizing count (rid + 1) (found.push row)

/-- **A machine reads the rows that the library reads, or fails as it does.** The position is the
offset that the rows are told. -/
theorem agrees_readRows {data : List UInt8} (bounded : data.length < objectBound) (sizing : Sizing)
    (count rid : Nat) (found : Array ρ) {position : Nat} (inside : position ≤ data.length) :
    Agrees data position (readRows data sizing count rid found position)
      (collectRows sizing count rid position found (data.drop position)) := by
  induction count generalizing rid found position with
  | zero => exact .done found (Nat.le_refl _) inside
  | succ count ih =>
      have agrees := MachineRow.agrees (ρ := ρ) bounded sizing (UInt32.ofNat rid) inside
      rw [readRows, collectRows]
      dsimp only
      generalize TableRow.read (ρ := ρ) sizing (UInt32.ofNat rid) position
        (data.drop position) = result at agrees ⊢
      obtain e | ⟨row, rest⟩ := result
      · rw [bind_apply_fail agrees.eq_fail]
        exact .failed e
      · obtain ⟨stop, le, within, rfl, read⟩ := agrees.exists_stop
        obtain rfl := MachineRow.moves data sizing _ _ _ _ read
        rw [bind_apply read]
        exact (ih (rid + 1) (found.push row) within).earlier le

end Consecutive

end SymbolHistory.Machine
