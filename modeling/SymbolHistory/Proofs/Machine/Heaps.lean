import SymbolHistory.Proofs.Machine.Compressed
import SymbolHistory.Heap.Blob
import SymbolHistory.Heap.Guid

/-!
# Heaps on a machine

A place in a heap comes from the data, so it may be anything. A machine compares it with the size of
the heap, and what it reads there, before it takes a slice.

## Main definitions

* `blobHeap`, `blobAt` : the blobs of a heap.
* `guidHeap`, `guidAt` : the GUIDs of a heap.

## Main results

* `blobAt_eq`, `guidAt_eq` : these give what the heaps of the library give, at any place.
-/

namespace SymbolHistory.Machine

open Bytes

/-! ### Blobs -/

/-- The blob heap in a stream. -/
def blobHeap (stream : List UInt8) : Exec BlobHeap := do
  if stream.length = 0 then fail (.malformed .blobHeapStart)
  else
    let first ← index stream 0
    if first ≠ 0 then fail (.malformed .blobHeapStart) else return ⟨stream.toArray⟩

/-- The blob at a place. -/
def blobAt (heap : BlobHeap) (place : Nat) : Exec (List UInt8) := do
  let bytes := heap.bytes.toList
  if bytes.length ≤ place then fail .outOfBounds
  else
    let tail ← sliceFrom bytes place
    let (length, skip) ← readUnsigned tail 0
    match checkedAdd UInt64.size place skip with
    | none => fail .outOfBounds
    | some start =>
      match checkedAdd UInt64.size start length with
      | none => fail .outOfBounds
      | some stop =>
        if bytes.length < stop then fail .outOfBounds else slice bytes start stop

theorem blobHeap_eq (stream : List UInt8) :
    blobHeap stream = ofExcept (BlobHeap.ofBytes stream) := by
  rcases stream with _ | ⟨b, rest⟩
  · rfl
  · change (if b ≠ 0 then _ else _) = _
    unfold BlobHeap.ofBytes
    rw [List.head?_cons]
    by_cases zero : b = 0
    · rw [if_neg (not_not.2 zero), if_pos (congrArg some zero)]
      rfl
    · rw [if_pos zero, if_neg (mt Option.some.inj zero)]
      rfl

theorem readUnsigned_of_scan {bytes : List UInt8} {n : Nat} {w : Width}
    (bounded : bytes.length < objectBound) (h : scan bytes = .ok (n, w)) :
    readUnsigned bytes 0 = pure (n, w.length) := by
  have agrees := performs_unsigned bounded 0 (Nat.zero_le _)
  have found : unsigned bytes = .ok (n, bytes.drop w.length) :=
    bind_eq_ok_iff.2 ⟨(n, w), _, by rw [compressed, h], rfl⟩
  rw [List.drop_zero, found] at agrees
  obtain ⟨stop, -, inside, eq, read⟩ := agrees.exists_stop
  have lengths := congrArg List.length eq
  have le := length_le_of_scan h
  rw [List.length_drop, List.length_drop] at lengths
  rw [read, show stop = w.length by omega]

theorem readUnsigned_of_scan_error {bytes : List UInt8} {e : Error} {looked : Nat}
    (bounded : bytes.length < objectBound) (h : scan bytes = .error (e, looked)) :
    readUnsigned bytes 0 = fail e := by
  have agrees := performs_unsigned bounded 0 (Nat.zero_le _)
  have found : unsigned bytes = .error e := by
    change compressed bytes >>= _ = _
    rw [compressed, h]
    rfl
  rw [List.drop_zero, found] at agrees
  exact agrees.eq_fail

/-- **At any place, a machine finds the blob that the library finds there, or fails as it does.** -/
theorem blobAt_eq {heap : BlobHeap} (bounded : heap.bytes.size < objectBound) (place : Nat) :
    blobAt heap place = ofExcept (heap.get place) := by
  obtain ⟨⟨bytes⟩⟩ := heap
  change bytes.length < objectBound at bounded
  have four : scan (bytes.toArray.extract place (place + 4)).toList = scan (bytes.drop place) := by
    rw [List.extract_toArray, List.extract_eq_take_drop, Nat.add_sub_cancel_left]
    exact scan_take_four _
  unfold blobAt BlobHeap.get
  dsimp only
  rw [four]
  rcases Nat.lt_or_ge place bytes.length with lt | ge
  · have bounded' : (bytes.drop place).length < objectBound := by
      rw [List.length_drop]
      omega
    rw [if_neg (by omega), sliceFrom_of_le (by omega), pure_bind]
    cases scanned : scan (bytes.drop place) with
    | error r =>
        rw [readUnsigned_of_scan_error bounded' scanned]
        rfl
    | ok r =>
        obtain ⟨length, w⟩ := r
        have value := (scan_eq_ok scanned).1
        have short : w.bound ≤ 0x20000000 := by cases w <;> decide
        have inside := length_le_of_scan scanned
        rw [List.length_drop] at inside
        have fits : place + w.length + length < UInt64.size := by
          simp only [objectBound, UInt64.size] at *
          omega
        rw [readUnsigned_of_scan bounded' scanned, pure_bind]
        dsimp only
        rw [checkedAdd_of_lt (Nat.lt_of_le_of_lt (Nat.le_add_right ..) fits)]
        dsimp only
        rw [checkedAdd_of_lt fits, ofExcept_ite, List.size_toArray]
        dsimp only
        by_cases enough : place + w.length + length ≤ bytes.length
        · rw [if_neg (Nat.not_lt.2 enough), if_pos enough, slice_of_le (Nat.le_add_right ..) enough,
            List.extract_toArray, List.extract_eq_take_drop]
          rfl
        · rw [if_pos (Nat.lt_of_not_le enough), if_neg enough]
          rfl
  · rw [if_pos ge, List.drop_eq_nil_of_le ge]
    rfl

/-! ### GUIDs -/

/-- The GUID heap in a stream. -/
def guidHeap (stream : List UInt8) : Exec (List UInt8) :=
  if stream.length % 16 ≠ 0 then fail (.malformed (.guidHeapSize stream.length)) else pure stream

/-- The GUID at a place. -/
def guidAt (heap : List UInt8) (place : Nat) : Exec Guid := do
  if place = 0 then return .nil
  else if heap.length / 16 < place then fail .outOfBounds
  else
    let before ← sub place 1
    let start ← mul UInt64.size before 16
    let stop ← add UInt64.size start 16
    let bytes ← copy 16 (← slice heap start stop)
    return .ofBytes bytes

/-- The GUIDs that are collected from bytes, each from its sixteen. -/
theorem toList_collect (count : Nat) (bytes : List UInt8) (found : Array Guid) :
    (GuidHeap.collect count bytes found).toList = found.toList ++
      (List.range count).map fun i => Guid.ofBytes ((bytes.drop (16 * i)).take 16) := by
  induction count generalizing bytes found with
  | zero => simp [GuidHeap.collect]
  | succ count ih =>
      have next (i : Nat) : (bytes.drop 16).drop (16 * i) = bytes.drop (16 * (i + 1)) := by
        rw [List.drop_drop, Nat.mul_add, Nat.mul_one, Nat.add_comm 16]
      rw [GuidHeap.collect, ih, Array.toList_push, List.range_succ_eq_map, List.map_cons,
        List.map_map, List.append_assoc, List.singleton_append]
      simp only [next, Function.comp_def, Nat.mul_zero, List.drop_zero, Nat.succ_eq_add_one]

theorem guidHeap_eq (stream : List UInt8) :
    guidHeap stream = ofExcept ((fun _ => stream) <$> GuidHeap.ofBytes stream) := by
  unfold guidHeap GuidHeap.ofBytes
  dsimp only
  by_cases whole : stream.length % 16 = 0
  · rw [if_neg (not_not.2 whole), if_pos whole]
    rfl
  · rw [if_pos whole, if_neg whole]
    rfl

/-- **At any place, a machine finds the GUID that the library finds there, or fails as it does.** -/
theorem guidAt_eq {stream : List UInt8} {heap : GuidHeap} (bounded : stream.length < objectBound)
    (h : GuidHeap.ofBytes stream = .ok heap) (place : Nat) :
    guidAt stream place = ofExcept (heap.get place) := by
  unfold GuidHeap.ofBytes at h
  dsimp only at h
  split at h
  · next whole =>
    cases h
    rcases place with _ | i
    · rfl
    · rw [guidAt, if_neg (Nat.succ_ne_zero i), GuidHeap.get, ← Array.getElem?_toList,
        toList_collect]
      dsimp only [List.nil_append]
      rw [List.getElem?_map]
      by_cases inside : i < stream.length / 16
      · have fits : i * 16 + 16 ≤ stream.length := by omega
        have small : i * 16 + 16 < UInt64.size := by
          simp only [objectBound, UInt64.size] at *
          omega
        have length : ((stream.drop (i * 16)).take (i * 16 + 16 - i * 16)).length = 16 := by
          rw [List.length_take, List.length_drop]
          omega
        rw [if_neg (by omega), List.getElem?_range inside, sub_of_le (by omega), pure_bind,
          Nat.add_sub_cancel, mul_of_lt (by omega), pure_bind, add_of_lt small, pure_bind,
          slice_of_le (Nat.le_add_right ..) fits, pure_bind, copy_of_length length, pure_bind,
          Nat.add_sub_cancel_left, Nat.mul_comm]
        rfl
      · rw [if_pos (by omega), List.getElem?_eq_none (by rw [List.length_range]; omega)]
        rfl
  · cases h

end SymbolHistory.Machine
