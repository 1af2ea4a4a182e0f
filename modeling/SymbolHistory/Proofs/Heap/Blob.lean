import SymbolHistory.Heap.Blob
import SymbolHistory.Proofs.Bytes.Compressed
import SymbolHistory.Proofs.Outcome

/-!
# A growing blob heap keeps its blobs

Adding a blob answers with a place at which the blob is stored, and nothing that is stored at a
place is ever touched again. So a place can be handed out before the heap is complete.

## Main definitions

* `BlobHeap.Stores` : the bytes of a heap have a blob at a place.
* `BlobHeap.Has` : a heap has a blob at a place, and its length in any width.
* `BlobHeap.Builder.Valid` : a growing heap remembers places at which the blobs are.
* `BlobHeap.Builder.Grows` : what one growing heap has in common with a later one.
* `BlobHeap.Builder.addAll` : a heap to which blobs were added.

## Main results

* `BlobHeap.get_eq_ok_iff` : which blob is read from a place.
* `BlobHeap.Stores.get` : a blob is read from where it is stored.
* `BlobHeap.Builder.add_eq_ok_iff` : what adding a blob can do.
* `BlobHeap.Builder.grows_of_add` : adding a blob stores it.
* `BlobHeap.Builder.exists_add` : adding a blob succeeds while there is room.
-/

namespace SymbolHistory.BlobHeap

open Bytes

/-! ### Stored blobs -/

/-- The bytes of a heap have `blob` at `place`, behind its length. -/
def Stores (bytes : List UInt8) (place : Nat) (blob : List UInt8) : Prop :=
  ∃ front form rest, encodeUnsigned blob.length = .ok form ∧ front.length = place ∧
    bytes = front ++ (form ++ (blob ++ rest))

/-- A heap keeps what it stores when bytes are added behind. -/
theorem Stores.mono {bytes more : List UInt8} {place : Nat} {blob : List UInt8}
    (h : Stores bytes place blob) (kept : bytes <+: more) : Stores more place blob := by
  obtain ⟨front, form, rest, written, at_place, rfl⟩ := h
  obtain ⟨behind, rfl⟩ := kept
  exact ⟨front, form, rest ++ behind, written, at_place, by simp only [List.append_assoc]⟩

/-- The form of a number is that in a width which holds it. -/
theorem exists_width_of_encodeUnsigned {n : Nat} {form : List UInt8}
    (h : encodeUnsigned n = .ok form) : ∃ w : Width, n < w.bound ∧ form = w.put n := by
  obtain ⟨w, narrow, rfl⟩ := encodeUnsigned_eq_ok_iff_put.1 h
  exact ⟨w, Width.lt_bound_of_ofUnsigned? narrow, rfl⟩

/-- The form of a number has one to four bytes. -/
theorem length_of_encodeUnsigned {n : Nat} {form : List UInt8} (h : encodeUnsigned n = .ok form) :
    0 < form.length ∧ form.length ≤ 4 := by
  obtain ⟨w, -, rfl⟩ := exists_width_of_encodeUnsigned h
  rw [length_put]
  cases w <;> decide

/-- A blob is stored in front of the end of the heap. -/
theorem Stores.lt {bytes : List UInt8} {place : Nat} {blob : List UInt8}
    (h : Stores bytes place blob) : place < bytes.length := by
  obtain ⟨front, form, rest, written, rfl, rfl⟩ := h
  have := (length_of_encodeUnsigned written).1
  simp only [List.length_append]
  omega

/-- A heap has `blob` at `place`, behind its length, which is written in any width that holds it. -/
def Has (heap : BlobHeap) (place : Nat) (blob : List UInt8) : Prop :=
  ∃ front, ∃ w : Width, ∃ rest, blob.length < w.bound ∧ front.length = place ∧
    heap.bytes.toList = front ++ (w.put blob.length ++ (blob ++ rest))

/-- The length of a blob is a compressed number. -/
theorem Has.length_lt {heap : BlobHeap} {place : Nat} {blob : List UInt8}
    (h : heap.Has place blob) : blob.length < Width.four.bound := by
  obtain ⟨_, w, _, held, -⟩ := h
  have widest := w.bound_le_bound_four
  omega

/-- **A blob is read from its place, and nothing is read from any other.** -/
theorem get_eq_ok_iff {heap : BlobHeap} {place : Nat} {blob : List UInt8} :
    heap.get place = .ok blob ↔ heap.Has place blob := by
  obtain ⟨bytes⟩ := heap
  have window : (bytes.extract place (place + 4)).toList = (bytes.toList.drop place).take 4 := by
    rw [Array.toList_extract, List.extract_eq_take_drop, Nat.add_sub_cancel_left]
  have part (start length : Nat) :
      (bytes.extract start (start + length)).toList = (bytes.toList.drop start).take length := by
    rw [Array.toList_extract, List.extract_eq_take_drop, Nat.add_sub_cancel_left]
  rw [get, Has]
  simp only [window, part, ← Array.length_toList]
  generalize bytes.toList = all
  constructor
  · intro h
    split at h
    · cases h
    · next length w scanned =>
      rw [scan_take_four] at scanned
      obtain ⟨held, eq⟩ := scan_eq_ok scanned
      generalize (all.drop place).drop w.length = rest at eq
      split at h
      · next inside =>
        have behind : all.drop (place + w.length) = rest := by
          rw [← List.drop_drop, eq, ← length_put w length, List.drop_left]
        have long : length ≤ rest.length := by
          rw [← behind, List.length_drop]
          omega
        rw [behind] at h
        obtain rfl := Except.ok.inj h
        rw [List.length_take_of_le long]
        refine ⟨all.take place, w, rest.drop length, held, List.length_take_of_le (by omega), ?_⟩
        rw [List.take_append_drop, ← eq, List.take_append_drop]
      · cases h
  · rintro ⟨front, w, rest, held, rfl, rfl⟩
    have inside : front.length + w.length + blob.length ≤
        (front ++ (w.put blob.length ++ (blob ++ rest))).length := by
      rw [List.length_append, List.length_append, List.length_append, length_put]
      omega
    rw [List.drop_left, scan_take_four, scan_put held]
    dsimp only
    rw [if_pos inside, ← List.drop_drop, List.drop_left, ← length_put w blob.length, List.drop_left,
      List.take_left]

/-- What the bytes of a heap store is in the heap. -/
theorem Stores.has {bytes : List UInt8} {place : Nat} {blob : List UInt8}
    (h : Stores bytes place blob) : Has ⟨bytes.toArray⟩ place blob := by
  obtain ⟨front, form, rest, written, at_place, eq⟩ := h
  obtain ⟨w, held, rfl⟩ := exists_width_of_encodeUnsigned written
  exact ⟨front, w, rest, held, at_place, eq⟩

/-- **A blob is read from where it is stored.** -/
theorem Stores.get {bytes : List UInt8} {place : Nat} {blob : List UInt8}
    (h : Stores bytes place blob) : get ⟨bytes.toArray⟩ place = .ok blob :=
  get_eq_ok_iff.2 h.has

/-- Bytes that store the empty blob at their start are a heap. -/
theorem Stores.ofBytes {bytes : List UInt8} (h : Stores bytes 0 []) :
    ofBytes bytes = .ok ⟨bytes.toArray⟩ := by
  obtain ⟨front, form, rest, written, start, rfl⟩ := h
  obtain rfl := List.length_eq_zero_iff.1 start
  obtain rfl := Except.ok.inj (written.symm.trans (rfl : encodeUnsigned 0 = .ok [0]))
  exact if_pos rfl

/-- A place has one blob. -/
theorem Stores.unique {bytes : List UInt8} {place : Nat} {a b : List UInt8}
    (ha : Stores bytes place a) (hb : Stores bytes place b) : a = b :=
  Except.ok.inj (ha.get.symm.trans hb.get)

/-! ### Adding blobs -/

/-- Sizes below 2^32 are words. -/
theorem checkSize_eq_ok_iff {size : Nat} {checked : UInt32} :
    checkSize size = .ok checked ↔ size < UInt32.size ∧ checked = UInt32.ofNat size := by
  rw [checkSize]
  by_cases lt : size < UInt32.size
  · rw [if_pos lt, Except.ok.injEq, eq_comm, and_iff_right lt]
  · rw [if_neg lt]
    constructor
    · intro h
      cases h
    · rintro ⟨small, -⟩
      exact absurd small lt

namespace Builder

/-- A growing heap has the empty blob at its start, and the places that it remembers are places
of their blobs. -/
structure Valid (heap : Builder) : Prop where
  /-- The empty blob is at the start. -/
  empty : Stores heap.bytes.toList 0 []
  /-- Remembered places have their blobs. -/
  places : ∀ blob place, heap.places[blob]? = some place →
    Stores heap.bytes.toList place.toNat blob

/-- A later heap is valid, and has all bytes of the one before at its front. -/
structure Grows (heap later : Builder) : Prop where
  /-- The later heap is valid. -/
  valid : later.Valid
  /-- No byte changes. -/
  kept : heap.bytes.toList <+: later.bytes.toList

theorem Valid.grows {heap : Builder} (valid : heap.Valid) : heap.Grows heap :=
  ⟨valid, List.prefix_rfl⟩

theorem Grows.trans {first second third : Builder} (h₁ : first.Grows second)
    (h₂ : second.Grows third) : first.Grows third :=
  ⟨h₂.valid, h₁.kept.trans h₂.kept⟩

theorem valid_new : new.Valid where
  empty := ⟨[], [0], [], rfl, rfl, rfl⟩
  places blob place h := by
    rw [new, Std.HashMap.getElem?_empty] at h
    cases h

/-- Only the empty blob is at place 0. -/
theorem Valid.eq_nil {heap : Builder} (valid : heap.Valid) {blob : List UInt8}
    (h : Stores heap.bytes.toList 0 blob) : blob = [] :=
  h.unique valid.empty

/-- Writing a new blob behind the others, and remembering its place, keeps a heap valid. -/
theorem Valid.grows_insert {heap : Builder} (valid : heap.Valid) {blob form : List UInt8}
    (written : encodeUnsigned blob.length = .ok form) (small : heap.bytes.size < UInt32.size) :
    heap.Grows ⟨heap.bytes ++ form ++ blob,
      heap.places.insert blob (UInt32.ofNat heap.bytes.size)⟩ := by
  have kept : heap.bytes.toList <+: (heap.bytes ++ form ++ blob).toList := by
    simp only [Array.toList_appendList, List.append_assoc]
    exact List.prefix_append _ _
  refine ⟨⟨valid.empty.mono kept, fun other place h => ?_⟩, kept⟩
  rw [Std.HashMap.getElem?_insert] at h
  by_cases same : blob = other
  · subst same
    rw [if_pos BEq.rfl, Option.some.injEq] at h
    subst h
    rw [UInt32.toNat_ofNat_of_lt' small]
    exact ⟨heap.bytes.toList, form, [], written, Array.length_toList, by simp⟩
  · rw [if_neg (by simpa using same)] at h
    exact (valid.places other place h).mono kept

/-- What adding a blob can do: nothing for the empty blob, nothing for one that is there already,
else the blob is written behind the others. -/
theorem add_eq_ok_iff {heap later : Builder} {blob : List UInt8} {place : UInt32} :
    heap.add blob = .ok (place, later) ↔
      (blob = [] ∧ place = 0 ∧ later = heap) ∨
      (blob ≠ [] ∧ heap.places[blob]? = some place ∧ later = heap) ∨
      (blob ≠ [] ∧ heap.places[blob]? = none ∧ heap.bytes.size < UInt32.size ∧
        blob.length < UInt32.size ∧ place = UInt32.ofNat heap.bytes.size ∧
        ∃ form, encodeUnsigned blob.length = .ok form ∧
          later = ⟨heap.bytes ++ form ++ blob, heap.places.insert blob place⟩) := by
  obtain ⟨bytes, places⟩ := heap
  rw [add]
  by_cases nothing : blob = []
  · subst nothing
    simp [eq_comm]
  · rw [if_neg (by simpa using nothing)]
    cases known : places[blob]? with
    | some found => simp [nothing, eq_comm]
    | none =>
        simp only [nothing, false_and, false_or, ne_eq, not_false_eq_true, true_and, reduceCtorEq]
        constructor
        · intro h
          obtain ⟨start, checked, h⟩ := Outcome.bind_eq_ok_iff.1 h
          obtain ⟨small, rfl⟩ := checkSize_eq_ok_iff.1 checked
          obtain ⟨length, checked, h⟩ := Outcome.bind_eq_ok_iff.1 h
          obtain ⟨short, rfl⟩ := checkSize_eq_ok_iff.1 checked
          obtain ⟨form, written, h⟩ := Outcome.bind_eq_ok_iff.1 h
          obtain ⟨rfl, rfl⟩ := Prod.mk.inj (Except.ok.inj h)
          rw [UInt32.toNat_ofNat_of_lt' short] at written
          exact ⟨small, short, rfl, form, written, rfl⟩
        · rintro ⟨small, short, rfl, form, written, rfl⟩
          refine Outcome.bind_eq_ok_iff.2 ⟨_, checkSize_eq_ok_iff.2 ⟨small, rfl⟩, ?_⟩
          refine Outcome.bind_eq_ok_iff.2 ⟨_, checkSize_eq_ok_iff.2 ⟨short, rfl⟩, ?_⟩
          rw [UInt32.toNat_ofNat_of_lt' short]
          exact Outcome.bind_eq_ok_iff.2 ⟨form, written, rfl⟩

/-- **Adding a blob stores it**, and leaves everything where it is. -/
theorem grows_of_add {heap later : Builder} {blob : List UInt8} {place : UInt32}
    (valid : heap.Valid) (h : heap.add blob = .ok (place, later)) :
    heap.Grows later ∧ Stores later.bytes.toList place.toNat blob := by
  obtain ⟨rfl, rfl, rfl⟩ | ⟨-, known, rfl⟩ | ⟨-, -, small, -, rfl, form, written, rfl⟩ :=
    add_eq_ok_iff.1 h
  · exact ⟨valid.grows, valid.empty⟩
  · exact ⟨valid.grows, valid.places blob place known⟩
  · have grows := valid.grows_insert written small
    exact ⟨grows, grows.valid.places blob _ Std.HashMap.getElem?_insert_self⟩

/-- The heap to which `blobs` were added. A blob that finds no room leaves the heap as it is. -/
def addAll (heap : Builder) : (blobs : List (List UInt8)) → Builder
  | [] => heap
  | blob :: blobs =>
    match heap.add blob with
    | .ok (_, later) => later.addAll blobs
    | .error _ => heap.addAll blobs

/-- Adding blobs leaves everything where it is. -/
theorem Valid.grows_addAll {heap : Builder} (valid : heap.Valid) (blobs : List (List UInt8)) :
    heap.Grows (heap.addAll blobs) := by
  induction blobs generalizing heap with
  | nil => exact valid.grows
  | cons blob blobs ih =>
      rw [addAll]
      split
      · next later added =>
        obtain ⟨grows, -⟩ := grows_of_add valid added
        exact grows.trans (ih grows.valid)
      · exact ih valid

/-- A heap grows by the blob and its length at most. -/
theorem size_of_add {heap later : Builder} {blob : List UInt8} {place : UInt32}
    (h : heap.add blob = .ok (place, later)) :
    later.bytes.size ≤ heap.bytes.size + 4 + blob.length := by
  obtain ⟨-, -, rfl⟩ | ⟨-, -, rfl⟩ | ⟨-, -, -, -, -, form, written, rfl⟩ := add_eq_ok_iff.1 h
  · omega
  · omega
  · have := (length_of_encodeUnsigned written).2
    rw [← Array.length_toList, ← Array.length_toList, Array.toList_appendList,
      Array.toList_appendList, List.length_append, List.length_append]
    omega

/-- **Adding a blob succeeds while there is room.** -/
theorem exists_add (heap : Builder) (blob : List UInt8)
    (room : heap.bytes.size < Width.four.bound) (short : blob.length < Width.four.bound) :
    ∃ place later, heap.add blob = .ok (place, later) := by
  by_cases nothing : blob = []
  · exact ⟨0, heap, add_eq_ok_iff.2 (.inl ⟨nothing, rfl, rfl⟩)⟩
  · cases known : heap.places[blob]? with
    | some found => exact ⟨found, heap, add_eq_ok_iff.2 (.inr (.inl ⟨nothing, known, rfl⟩))⟩
    | none =>
        obtain ⟨form, written⟩ := encodeUnsigned_eq_ok_iff.2 short
        have words : Width.four.bound < UInt32.size := by decide
        exact ⟨_, _, add_eq_ok_iff.2 (.inr (.inr ⟨nothing, known, Nat.lt_trans room words,
          Nat.lt_trans short words, rfl, form, written, rfl⟩))⟩

end Builder

end SymbolHistory.BlobHeap
