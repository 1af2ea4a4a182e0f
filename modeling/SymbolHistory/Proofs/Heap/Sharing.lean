import SymbolHistory.Proofs.Heap.Blob
import Mathlib.Data.List.Forall2

/-!
# Equal blobs share a place

A growing heap writes every blob once. A blob that comes again is answered with the place that it
got, and another blob never gets that place. So the bytes of a heap are nothing but the blobs that
were added, each behind its length.

## Main definitions

* `BlobHeap.Builder.Adds` : blobs are added one after the other, each with its answer.
* `BlobHeap.Builder.Contents` : the blobs that a growing heap consists of.

## Main results

* `BlobHeap.Builder.add_again` : a blob that was added is found again, and nothing is written.
* `BlobHeap.Builder.Contents.exists_of_add` : what adding a blob does to the contents.
* `BlobHeap.Builder.places_are_shared` : places stay good, tell blobs apart, and cost no byte twice.
-/

namespace SymbolHistory.BlobHeap.Builder

open Bytes

variable {heap later last : Builder} {blob other : List UInt8} {place : UInt32}
  {calls : List (List UInt8 × UInt32)} {blobs : List (List UInt8)}

/-- Blobs are added one after the other, each with the place that is the answer. -/
inductive Adds : Builder → List (List UInt8 × UInt32) → Builder → Prop
  | nil (heap : Builder) : Adds heap [] heap
  | cons {heap later last : Builder} {blob : List UInt8} {place : UInt32}
      {calls : List (List UInt8 × UInt32)} (added : heap.add blob = .ok (place, later))
      (rest : Adds later calls last) : Adds heap ((blob, place) :: calls) last

/-! ### Places stay -/

/-- Nothing is written for the empty blob, and for a blob that is there already. -/
theorem add_eq_self_iff :
    heap.add blob = .ok (place, heap) ↔
      (blob = [] ∧ place = 0) ∨ (blob ≠ [] ∧ heap.places[blob]? = some place) := by
  rw [add_eq_ok_iff]
  constructor
  · rintro (⟨nothing, zero, -⟩ | ⟨something, known, -⟩ | ⟨-, unknown, -, -, -, form, -, eq⟩)
    · exact .inl ⟨nothing, zero⟩
    · exact .inr ⟨something, known⟩
    · have known : heap.places[blob]? = some place := by
        rw [eq]
        exact Std.HashMap.getElem?_insert_self
      rw [unknown] at known
      cases known
  · rintro (⟨nothing, zero⟩ | ⟨something, known⟩)
    · exact .inl ⟨nothing, zero, rfl⟩
    · exact .inr (.inl ⟨something, known, rfl⟩)

/-- A blob that was added is found again, and nothing is written. -/
theorem add_again (h : heap.add blob = .ok (place, later)) :
    later.add blob = .ok (place, later) := by
  obtain ⟨rfl, rfl, rfl⟩ | ⟨-, -, rfl⟩ | ⟨something, -, -, -, -, form, -, rfl⟩ := add_eq_ok_iff.1 h
  · exact h
  · exact h
  · exact add_eq_self_iff.2 (.inr ⟨something, Std.HashMap.getElem?_insert_self⟩)

/-- A blob that is found in a heap is found at the same place when another one was added. -/
theorem add_again_of_add {found : UInt32} (known : heap.add blob = .ok (found, heap))
    (h : heap.add other = .ok (place, later)) : later.add blob = .ok (found, later) := by
  obtain ⟨-, -, rfl⟩ | ⟨-, -, rfl⟩ | ⟨-, unknown, -, -, -, form, -, rfl⟩ := add_eq_ok_iff.1 h
  · exact known
  · exact known
  · refine add_eq_self_iff.2 ((add_eq_self_iff.1 known).imp_right fun ⟨something, known⟩ => ?_)
    have different : other ≠ blob := by
      rintro rfl
      rw [unknown] at known
      cases known
    refine ⟨something, ?_⟩
    rw [Std.HashMap.getElem?_insert, if_neg (by simpa using different)]
    exact known

/-- A blob that is found in a heap is found at the same place when others were added. -/
theorem Adds.add_again_of_add (h : heap.Adds calls last)
    (known : heap.add blob = .ok (place, heap)) : last.add blob = .ok (place, last) := by
  induction h with
  | nil heap => exact known
  | cons added _ ih => exact ih (Builder.add_again_of_add known added)

/-- Every blob is found at the end where it was put. -/
theorem Adds.add_again (h : heap.Adds calls last) :
    ∀ call ∈ calls, last.add call.1 = .ok (call.2, last) := by
  induction h with
  | nil heap => exact fun _ mem => by cases mem
  | cons added rest ih =>
      intro call mem
      obtain rfl | mem := List.mem_cons.1 mem
      · exact rest.add_again_of_add (Builder.add_again added)
      · exact ih call mem

/-- Every blob is stored at the end where it was put, in a heap that is valid. -/
theorem Adds.stores (h : heap.Adds calls last) (valid : heap.Valid) :
    heap.Grows last ∧ ∀ call ∈ calls, Stores last.bytes.toList call.2.toNat call.1 := by
  induction h with
  | nil heap => exact ⟨valid.grows, fun _ mem => by cases mem⟩
  | cons added rest ih =>
      obtain ⟨grows, stored⟩ := grows_of_add valid added
      obtain ⟨grows', ih⟩ := ih grows.valid
      refine ⟨grows.trans grows', fun call mem => ?_⟩
      obtain rfl | mem := List.mem_cons.1 mem
      · exact stored.mono grows'.kept
      · exact ih call mem

/-! ### What is written -/

/-- What is written of a blob: its length and the blob. -/
def Entry (blob entry : List UInt8) : Prop :=
  ∃ form, encodeUnsigned blob.length = .ok form ∧ entry = form ++ blob

/-- The blobs that a growing heap consists of. -/
structure Contents (heap : Builder) (blobs : List (List UInt8)) : Prop where
  /-- No blob is there twice. -/
  nodup : blobs.Nodup
  /-- They are the blobs that the heap remembers. -/
  mem_iff : ∀ blob, blob ∈ blobs ↔ ∃ place, heap.places[blob]? = some place
  /-- They are written one behind the other, after the empty blob. -/
  entries : ∃ entries, List.Forall₂ Entry blobs entries ∧ heap.bytes.toList = 0 :: entries.flatten

theorem contents_new : new.Contents [] where
  nodup := List.nodup_nil
  mem_iff blob := by
    rw [new, Std.HashMap.getElem?_empty]
    simp
  entries := ⟨[], .nil, rfl⟩

/-- Adding a blob adds it to the contents, if it is not empty and not there already. -/
theorem Contents.exists_of_add (h : heap.Contents blobs)
    (added : heap.add blob = .ok (place, later)) :
    ∃ more, later.Contents more ∧
      ∀ other, other ∈ more ↔ other ∈ blobs ∨ other ≠ [] ∧ other = blob := by
  obtain ⟨rfl, -, rfl⟩ | ⟨something, known, rfl⟩ |
    ⟨something, unknown, -, -, -, form, written, rfl⟩ := add_eq_ok_iff.1 added
  · exact ⟨blobs, h, fun other => by simp⟩
  · have mem := (h.mem_iff blob).2 ⟨place, known⟩
    refine ⟨blobs, h, fun other => ⟨.inl, ?_⟩⟩
    rintro (mem' | ⟨-, rfl⟩)
    · exact mem'
    · exact mem
  · have absent : blob ∉ blobs := by
      rw [h.mem_iff, unknown]
      simp
    obtain ⟨entries, forms, eq⟩ := h.entries
    refine ⟨blobs ++ [blob], ⟨?_, fun other => ?_, ?_⟩, fun other => ?_⟩
    · refine List.nodup_append.2 ⟨h.nodup, by simp, fun other mem _ mem' => ?_⟩
      rintro rfl
      exact absurd (List.mem_singleton.1 mem' ▸ mem) absent
    · rw [List.mem_append, List.mem_singleton, h.mem_iff, Std.HashMap.getElem?_insert]
      by_cases same : blob = other
      · simp [same]
      · simp [same, Ne.symm same]
    · refine ⟨entries ++ [form ++ blob], ?_, ?_⟩
      · exact List.rel_append forms (.cons ⟨form, written, rfl⟩ .nil)
      · simp [eq]
    · rw [List.mem_append, List.mem_singleton]
      refine or_congr_right (iff_and_self.2 ?_)
      rintro rfl
      exact something

/-- What is added one after the other is in the contents at the end. -/
theorem Contents.exists_of_adds (h : heap.Contents blobs) (added : heap.Adds calls last) :
    ∃ more, last.Contents more ∧
      ∀ blob, blob ∈ more ↔ blob ∈ blobs ∨ blob ≠ [] ∧ blob ∈ calls.map Prod.fst := by
  induction added generalizing blobs with
  | nil heap => exact ⟨blobs, h, fun blob => by simp⟩
  | cons added _ ih =>
      obtain ⟨mid, contents, mem_iff⟩ := h.exists_of_add added
      obtain ⟨more, contents, mem_iff'⟩ := ih contents
      refine ⟨more, contents, fun blob => ?_⟩
      rw [mem_iff', mem_iff, List.map_cons, List.mem_cons, or_assoc, ← and_or_left]

/-- **Places stay good, tell blobs apart, and cost no byte twice.** -/
theorem places_are_shared (h : new.Adds calls last) :
    (∀ zeros, ∃ heap, ofBytes (last.bytes.toList ++ List.replicate zeros 0) = .ok heap ∧
      ∀ call ∈ calls, heap.get call.2.toNat = .ok call.1) ∧
    (∀ first ∈ calls, ∀ second ∈ calls, first.2 = second.2 ↔ first.1 = second.1) ∧
    (∀ heap : Builder, heap.add [] = .ok (0, heap)) ∧
    (∀ call ∈ calls, call.1 = [] → call.2 = 0) ∧
    ∃ blobs : List (List UInt8), blobs.Nodup ∧
      (∀ blob, blob ∈ blobs ↔ blob ≠ [] ∧ blob ∈ calls.map Prod.fst) ∧
      ∃ entries, List.Forall₂ Entry blobs entries ∧ last.bytes.toList = 0 :: entries.flatten := by
  obtain ⟨grows, stores⟩ := h.stores valid_new
  have again := h.add_again
  refine ⟨fun zeros => ?_, fun first mem second mem' => ⟨fun same => ?_, fun same => ?_⟩,
    fun heap => add_eq_self_iff.2 (.inl ⟨rfl, rfl⟩), fun call mem nothing => ?_, ?_⟩
  · have kept : last.bytes.toList <+: last.bytes.toList ++ List.replicate zeros 0 :=
      List.prefix_append _ _
    exact ⟨_, (grows.valid.empty.mono kept).ofBytes,
      fun call mem => ((stores call mem).mono kept).get⟩
  · have stored := stores first mem
    rw [same] at stored
    exact stored.unique (stores second mem')
  · have found := again first mem
    rw [same, again second mem'] at found
    exact (Prod.mk.inj (Except.ok.inj found)).1.symm
  · obtain ⟨-, zero⟩ | ⟨something, -⟩ := add_eq_self_iff.1 (again call mem)
    · exact zero
    · exact absurd nothing something
  · obtain ⟨blobs, contents, mem_iff⟩ := contents_new.exists_of_adds h
    exact ⟨blobs, contents.nodup, fun blob => (mem_iff blob).trans (by simp), contents.entries⟩

/-- A blob, a longer one that starts with it, and the first one again; the empty blob before. -/
theorem places_are_shared_again :
    ∃ last : Builder, new.Adds [([], 0), ([1], 1), ([1, 2], 3), ([1], 1)] last ∧
      last.bytes = #[0, 1, 1, 2, 1, 2] ∧
      ∃ heap, ofBytes (last.bytes.toList ++ List.replicate 2 0) = .ok heap ∧
        heap.get 0 = .ok [] ∧ heap.get 1 = .ok [1] ∧ heap.get 3 = .ok [1, 2] := by
  have first : new.add [1] = .ok (1, ⟨#[0, 1, 1], (∅ : Std.HashMap _ _).insert [1] 1⟩) :=
    add_eq_ok_iff.2 (.inr (.inr ⟨by decide, Std.HashMap.getElem?_empty, by decide, by decide, rfl,
      [1], rfl, rfl⟩))
  have second : Builder.add ⟨#[0, 1, 1], (∅ : Std.HashMap _ _).insert [1] 1⟩ [1, 2] =
      .ok (3, ⟨#[0, 1, 1, 2, 1, 2], ((∅ : Std.HashMap _ _).insert [1] 1).insert [1, 2] 3⟩) :=
    add_eq_ok_iff.2 (.inr (.inr ⟨by decide, by simp, by decide, by decide, rfl, [2], rfl, rfl⟩))
  have run := Adds.cons (rfl : new.add [] = .ok (0, new))
    (.cons first (.cons second (.cons (add_again_of_add (add_again first) second) (.nil _))))
  obtain ⟨heap, opened, get⟩ := (places_are_shared run).1 2
  exact ⟨_, run, rfl, heap, opened, get ([], 0) (by simp), get ([1], 1) (by simp),
    get ([1, 2], 3) (by simp)⟩

end SymbolHistory.BlobHeap.Builder
