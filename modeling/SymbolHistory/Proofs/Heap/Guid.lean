import SymbolHistory.Heap.Guid

/-!
# A growing GUID heap keeps its GUIDs

Adding a GUID answers with the index that it has, which stays the same. Indices are words, so they
are good for heaps with less than 2^32 GUIDs; a larger one does not fit into metadata anyway.

## Main definitions

* `GuidHeap.Stores` : a heap has a GUID at an index.
* `GuidHeap.Builder.Valid`, `GuidHeap.Builder.Grows` : growing heaps, as for blobs.

## Main results

* `GuidHeap.Stores.get` : a GUID is read from its index.
* `GuidHeap.Builder.Valid.grows_add` : adding a GUID stores it.
* `GuidHeap.ofBytes_toBytes` : a heap is read back from its stored form.
-/

namespace SymbolHistory.GuidHeap

/-! ### Stored GUIDs -/

/-- `guid` has the index `place`: 0 if it is nil, else the number of its place, counted from 1. -/
def Stores (guids : List Guid) (place : UInt32) (guid : Guid) : Prop :=
  (guid = .nil ∧ place = 0) ∨ ∃ i, guids[i]? = some guid ∧ place = UInt32.ofNat (i + 1)

/-- A heap keeps what it stores when GUIDs are added behind. -/
theorem Stores.mono {guids more : List Guid} {place : UInt32} {guid : Guid}
    (h : Stores guids place guid) (kept : guids <+: more) : Stores more place guid := by
  obtain ⟨rfl, rfl⟩ | ⟨i, found, rfl⟩ := h
  · exact .inl ⟨rfl, rfl⟩
  · obtain ⟨behind, rfl⟩ := kept
    have inside := (List.getElem?_eq_some_iff.1 found).1
    exact .inr ⟨i, (List.getElem?_append_left inside).trans found, rfl⟩

/-- **A GUID is read from its index**, which the number of GUIDs bounds. -/
theorem Stores.get {guids : List Guid} {place : UInt32} {guid : Guid}
    (h : Stores guids place guid) (small : guids.length < UInt32.size) :
    get ⟨guids.toArray⟩ place.toNat = .ok guid ∧ place.toNat ≤ guids.length := by
  obtain ⟨rfl, rfl⟩ | ⟨i, found, rfl⟩ := h
  · exact ⟨rfl, Nat.zero_le _⟩
  · have inside := (List.getElem?_eq_some_iff.1 found).1
    rw [UInt32.toNat_ofNat_of_lt' (by omega), GuidHeap.get]
    simp only [List.getElem?_toArray, found]
    exact ⟨trivial, inside⟩

/-! ### Adding GUIDs -/

namespace Builder

/-- The indices that a growing heap remembers are indices of their GUIDs. -/
def Valid (heap : Builder) : Prop :=
  ∀ guid place, heap.places[guid]? = some place → Stores heap.guids.toList place guid

/-- A later heap is valid, and has all GUIDs of the one before at its front. -/
structure Grows (heap later : Builder) : Prop where
  /-- The later heap is valid. -/
  valid : later.Valid
  /-- No GUID changes its index. -/
  kept : heap.guids.toList <+: later.guids.toList

/-- A heap has grown from itself. -/
theorem Valid.grows {heap : Builder} (valid : heap.Valid) : heap.Grows heap :=
  ⟨valid, List.prefix_rfl⟩

/-- It may have grown in two steps. -/
theorem Grows.trans {first second third : Builder} (h₁ : first.Grows second)
    (h₂ : second.Grows third) : first.Grows third :=
  ⟨h₂.valid, h₁.kept.trans h₂.kept⟩

/-- The heap that is begun with can be read from. -/
theorem valid_new : new.Valid := by
  intro guid place h
  rw [new, Std.HashMap.getElem?_empty] at h
  cases h

/-- What adding a GUID can do: nothing for the nil GUID, nothing for one that is there already,
else the GUID is written behind the others. -/
theorem add_cases (heap : Builder) (guid : Guid) :
    (guid = .nil ∧ heap.add guid = (0, heap)) ∨
    (∃ place, heap.places[guid]? = some place ∧ heap.add guid = (place, heap)) ∨
    (guid ≠ .nil ∧ heap.places[guid]? = none ∧
      heap.add guid = (UInt32.ofNat (heap.guids.size + 1),
        ⟨heap.guids.push guid, heap.places.insert guid (UInt32.ofNat (heap.guids.size + 1))⟩)) := by
  obtain ⟨guids, places⟩ := heap
  rw [add]
  by_cases nothing : guid = .nil
  · rw [if_pos nothing]
    exact .inl ⟨nothing, rfl⟩
  · rw [if_neg nothing]
    cases known : places[guid]? with
    | some found => exact .inr (.inl ⟨found, rfl, rfl⟩)
    | none => exact .inr (.inr ⟨nothing, rfl, rfl⟩)

/-- Writing a new GUID behind the others, and remembering its index, keeps a heap valid. -/
theorem Valid.grows_push {heap : Builder} (valid : heap.Valid) (guid : Guid) :
    heap.Grows ⟨heap.guids.push guid,
      heap.places.insert guid (UInt32.ofNat (heap.guids.size + 1))⟩ := by
  have kept : heap.guids.toList <+: (heap.guids.push guid).toList := by
    rw [Array.toList_push]
    exact List.prefix_append _ _
  refine ⟨fun other place h => ?_, kept⟩
  rw [Std.HashMap.getElem?_insert] at h
  by_cases same : guid = other
  · subst same
    rw [if_pos BEq.rfl, Option.some.injEq] at h
    subst h
    exact .inr ⟨heap.guids.size, by simp, rfl⟩
  · rw [if_neg (by simpa using same)] at h
    exact (valid other place h).mono kept

/-- **Adding a GUID stores it**, and leaves the others where they are. -/
theorem Valid.grows_add {heap : Builder} (valid : heap.Valid) (guid : Guid) :
    heap.Grows (heap.add guid).2 ∧
      Stores (heap.add guid).2.guids.toList (heap.add guid).1 guid := by
  obtain ⟨rfl, eq⟩ | ⟨found, known, eq⟩ | ⟨-, -, eq⟩ := heap.add_cases guid
  · rw [eq]
    exact ⟨valid.grows, .inl ⟨rfl, rfl⟩⟩
  · rw [eq]
    exact ⟨valid.grows, valid guid found known⟩
  · rw [eq]
    have grows := valid.grows_push guid
    exact ⟨grows, grows.valid guid _ Std.HashMap.getElem?_insert_self⟩

/-- A heap grows by one GUID at most. -/
theorem size_add_le (heap : Builder) (guid : Guid) :
    (heap.add guid).2.guids.size ≤ heap.guids.size + 1 := by
  obtain ⟨-, eq⟩ | ⟨found, -, eq⟩ | ⟨-, -, eq⟩ := heap.add_cases guid
  · rw [eq]
    exact Nat.le_add_right _ _
  · rw [eq]
    exact Nat.le_add_right _ _
  · rw [eq]
    exact Nat.le_of_eq (Array.size_push guid)

end Builder

/-! ### The stored form -/

/-- Each GUID takes 16 bytes. -/
theorem Builder.length_toBytes (heap : Builder) :
    heap.toBytes.length = 16 * heap.guids.size :=
  Bytes.length_flatMap_of_forall Guid.length_toBytes heap.guids.toList

/-- GUIDs are collected from their stored forms. -/
theorem collect_flatMap_toBytes (guids : List Guid) (found : Array Guid) :
    collect guids.length (guids.flatMap Guid.toBytes) found = found ++ guids := by
  induction guids generalizing found with
  | nil => simp [collect]
  | cons guid guids ih =>
      rw [List.length_cons, List.flatMap_cons, collect, List.drop_left' guid.length_toBytes,
        List.take_left' guid.length_toBytes, Guid.ofBytes_toBytes, ih]
      simp

/-- **A heap is read back from its stored form.** -/
theorem ofBytes_toBytes (heap : Builder) : ofBytes heap.toBytes = .ok ⟨heap.guids⟩ := by
  have length := heap.length_toBytes
  rw [ofBytes, if_pos (by omega), length, Nat.mul_div_cancel_left _ (by decide), Builder.toBytes,
    ← Array.length_toList, collect_flatMap_toBytes]
  simp

end SymbolHistory.GuidHeap
