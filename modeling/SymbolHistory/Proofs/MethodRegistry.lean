import SymbolHistory.MethodRegistry
import SymbolHistory.Proofs.Metadata.Numbered
import Mathlib.Data.List.Duplicate

/-!
# What an update says about methods

Taking in the methods of a generation assigns its rows to methods one by one. In the end each row
belongs to the method that it was assigned to, that method has its debug information in this row,
and all other methods have theirs where it was.

## Main definitions

* `MethodRegistry.Assigned` : rows of a generation are assigned to methods.
* `MethodRegistry.CoversRows` : a generation says for each of its rows which method it belongs to.
* `MethodRegistry.RowFault` : how it can fail to.
* `Metadata.AssignsRow` : which method a row of a generation belongs to.

## Main results

* `MethodRegistry.update_cases` : the methods of a generation are taken in exactly if its rows are
  covered, and the error is about the fault otherwise.
* `MethodRegistry.assigned_of_update` : what taking them in does.
* `MethodRegistry.mem_entriesOf_iff` : rows are assigned by their places.
-/

namespace SymbolHistory

namespace MethodRegistry

/-- Rows of a generation are assigned to methods, and nothing else has changed since `before`. -/
structure Assigned (generation : Nat) (before : MethodRegistry)
    (entries : List (MethodDebug × MethodId)) (progress : Progress) : Prop where
  /-- Rows belong to the methods that they are assigned to. -/
  ids : ∀ row method, progress.2[row]? = some method ↔
    ∃ record, (record, method) ∈ entries ∧ record.rid = row
  /-- Methods with a row have their debug information there. -/
  placed : ∀ record method, (record, method) ∈ entries →
    progress.1.place? method = some ⟨record.rid, generation⟩
  /-- The other methods have it where it was. -/
  kept : ∀ method, (∀ record, (record, method) ∉ entries) →
    progress.1.place? method = before.place? method

/-- A row can be assigned to a method of which no row is in the generation yet. -/
theorem assign_eq_ok {generation : Nat} {progress new : Progress} {record : MethodDebug}
    {method : MethodId} (h : assign generation progress (record, method) = .ok new) :
    (progress.1.place? method).map (·.generation) ≠ some generation ∧
      new = (⟨progress.1.places.insert method ⟨record.rid, generation⟩⟩,
        progress.2.insert record.rid method) := by
  rcases progress with ⟨⟨places⟩, ids⟩
  rw [assign] at h
  split at h
  · cases h
  · split at h
    · cases h
    · next other =>
      exact ⟨other, (Except.ok.inj h).symm⟩

/-- Assigning one more row, of which the generation has no other. -/
theorem Assigned.assign {generation : Nat} {before : MethodRegistry}
    {entries : List (MethodDebug × MethodId)} {progress new : Progress}
    (h : Assigned generation before entries progress) {record : MethodDebug} {method : MethodId}
    (fresh : ∀ entry ∈ entries, entry.1.rid ≠ record.rid)
    (eq : MethodRegistry.assign generation progress (record, method) = .ok new) :
    Assigned generation before (entries ++ [(record, method)]) new := by
  obtain ⟨unplaced, rfl⟩ := assign_eq_ok eq
  -- No earlier row of the generation belongs to the method.
  have single : ∀ other, (other, method) ∉ entries := by
    intro other mem
    rw [h.placed other method mem] at unplaced
    exact unplaced rfl
  have place_new : ∀ other,
      place? ⟨progress.1.places.insert method ⟨record.rid, generation⟩⟩ other =
        if method = other then some ⟨record.rid, generation⟩ else progress.1.place? other := by
    intro other
    rw [place?, Std.HashMap.getElem?_insert]
    by_cases same : method = other
    · subst same
      simp
    · simp [same, place?]
  constructor
  · intro row other
    rw [Std.HashMap.getElem?_insert]
    by_cases same : record.rid = row
    · subst same
      rw [if_pos (by simp), Option.some.injEq]
      constructor
      · rintro rfl
        exact ⟨record, List.mem_append_right _ (List.mem_singleton.2 rfl), rfl⟩
      · rintro ⟨found, mem, eq⟩
        rcases List.mem_append.1 mem with mem | mem
        · exact absurd eq (fresh _ mem)
        · exact (congrArg Prod.snd (List.mem_singleton.1 mem)).symm
    · rw [if_neg (by simpa using same), h.ids]
      refine exists_congr fun found => and_congr_left fun eq => ?_
      rw [List.mem_append, List.mem_singleton, or_iff_left]
      rintro ⟨rfl, rfl⟩
      exact same eq
  · intro found other mem
    rw [place_new]
    rcases List.mem_append.1 mem with mem | mem
    · rw [if_neg, h.placed found other mem]
      rintro rfl
      exact single found mem
    · obtain ⟨rfl, rfl⟩ := Prod.mk.inj (List.mem_singleton.1 mem)
      rw [if_pos rfl]
  · intro other absent
    rw [place_new, if_neg, h.kept other fun found mem => absent found (List.mem_append_left _ mem)]
    rintro rfl
    exact absent record (List.mem_append_right _ (List.mem_singleton.2 rfl))

/-- A row is refused if its method has a row of the generation already. -/
theorem Assigned.assign_of_twice {generation : Nat} {before : MethodRegistry}
    {entries : List (MethodDebug × MethodId)} {progress : Progress}
    (h : Assigned generation before entries progress) {record : MethodDebug} {method : MethodId}
    (valid : method.val ≠ 0) (twice : method ∈ entries.map (·.2)) :
    MethodRegistry.assign generation progress (record, method) =
      .error (.identityConflict (.methodTwice method generation)) := by
  obtain ⟨⟨other, _⟩, mem, rfl⟩ := List.mem_map.1 twice
  have placed := congrArg (Option.map (·.generation)) (h.placed other _ mem)
  rcases progress with ⟨⟨places⟩, ids⟩
  rw [MethodRegistry.assign, if_neg valid]
  exact if_pos placed

/-- A row is taken in if its method has none in the generation yet. -/
theorem Assigned.exists_assign {generation : Nat} {before : MethodRegistry}
    {entries : List (MethodDebug × MethodId)} {progress : Progress}
    (h : Assigned generation before entries progress)
    (earlier : ∀ method place, before.place? method = some place → place.generation < generation)
    (record : MethodDebug) {method : MethodId} (valid : method.val ≠ 0)
    (once : method ∉ entries.map (·.2)) :
    ∃ new, MethodRegistry.assign generation progress (record, method) = .ok new := by
  have kept := h.kept method fun other mem => once (List.mem_map.2 ⟨_, mem, rfl⟩)
  have unassigned : (progress.1.place? method).map (·.generation) ≠ some generation := by
    rw [kept]
    cases placed : before.place? method with
    | none => simp
    | some place =>
        rw [Option.map_some, ne_eq, Option.some.injEq]
        exact Nat.ne_of_lt (earlier method place placed)
  rcases progress with ⟨⟨places⟩, ids⟩
  rw [MethodRegistry.assign, if_neg valid]
  exact ⟨_, if_neg unassigned⟩

/-- Assigning rows one by one, of which no two are the same, goes on until there is one that belongs
to no method, or to a method that has another row. -/
theorem Assigned.foldlM_cases {generation : Nat} {before : MethodRegistry}
    {entries rest : List (MethodDebug × MethodId)} {progress : Progress}
    (h : Assigned generation before entries progress)
    (earlier : ∀ method place, before.place? method = some place → place.generation < generation)
    (rids : ((entries ++ rest).map (·.1.rid)).Nodup) (valid : ∀ entry ∈ entries, entry.2.val ≠ 0)
    (distinct : (entries.map (·.2)).Nodup) :
    ((∀ entry ∈ entries ++ rest, entry.2.val ≠ 0) ∧ ((entries ++ rest).map (·.2)).Nodup ∧
      ∃ new, rest.foldlM (MethodRegistry.assign generation) progress = .ok new ∧
        Assigned generation before (entries ++ rest) new) ∨
    ((∃ entry ∈ entries ++ rest, entry.2.val = 0) ∧
      rest.foldlM (MethodRegistry.assign generation) progress =
        .error (.malformed .encMapRowZero)) ∨
    ∃ method, List.Duplicate method ((entries ++ rest).map (·.2)) ∧
      rest.foldlM (MethodRegistry.assign generation) progress =
        .error (.identityConflict (.methodTwice method generation)) := by
  induction rest generalizing entries progress with
  | nil =>
      rw [List.append_nil]
      exact .inl ⟨valid, distinct, progress, rfl, h⟩
  | cons entry rest ih =>
      rcases entry with ⟨record, method⟩
      rw [List.append_cons] at rids ⊢
      rw [List.foldlM_cons]
      by_cases zero : method.val = 0
      · refine .inr (.inl ⟨⟨(record, method), by simp, zero⟩, ?_⟩)
        have refused : MethodRegistry.assign generation progress (record, method) =
            .error (.malformed .encMapRowZero) := if_pos zero
        rw [refused]
        rfl
      · by_cases twice : method ∈ entries.map (·.2)
        · refine .inr (.inr ⟨method, ?_, ?_⟩)
          · rw [List.map_append, List.map_append, List.map_singleton]
            refine List.Duplicate.mono_sublist ?_ (List.sublist_append_left _ _)
            rw [List.duplicate_iff_two_le_count, List.count_append, List.count_singleton_self]
            have := List.one_le_count_iff.2 twice
            omega
          · rw [h.assign_of_twice zero twice]
            rfl
        · obtain ⟨next, step⟩ := h.exists_assign earlier record zero twice
          have fresh : ∀ other ∈ entries, other.1.rid ≠ record.rid := by
            rw [List.map_append, List.map_append, List.map_singleton, List.nodup_append,
              List.nodup_append] at rids
            intro other mem
            exact rids.1.2.2 _ (List.mem_map_of_mem mem) _ (List.mem_singleton.2 rfl)
          have distinct : ((entries ++ [(record, method)]).map (·.2)).Nodup := by
            rw [List.map_append, List.map_singleton, List.nodup_append]
            refine ⟨distinct, List.nodup_singleton _, fun other mem last last_mem eq => ?_⟩
            rw [eq, List.mem_singleton.1 last_mem] at mem
            exact twice mem
          have valid : ∀ other ∈ entries ++ [(record, method)], other.2.val ≠ 0 := by
            intro other mem
            rcases List.mem_append.1 mem with mem | mem
            · exact valid other mem
            · exact List.mem_singleton.1 mem ▸ zero
          rw [step]
          exact ih (h.assign fresh step) rids valid distinct

/-- Nothing of a generation is assigned yet. -/
theorem assigned_nil (generation : Nat) (before : MethodRegistry) :
    Assigned generation before [] (before, ∅) :=
  ⟨by simp, by simp, by simp⟩

/-- The rows of a generation with the methods that they belong to. -/
def entriesOf (metadata : Metadata) (generation : Nat) : List (MethodDebug × MethodId) :=
  metadata.methods.toList.zip (methodsOfRows metadata generation)

theorem map_fst_entriesOf {metadata : Metadata} {generation : Nat}
    (lengths : (methodsOfRows metadata generation).length = metadata.methods.size) :
    (entriesOf metadata generation).map (·.1) = metadata.methods.toList :=
  List.map_fst_zip (by simp [lengths])

theorem map_snd_entriesOf {metadata : Metadata} {generation : Nat}
    (lengths : (methodsOfRows metadata generation).length = metadata.methods.size) :
    (entriesOf metadata generation).map (·.2) = methodsOfRows metadata generation :=
  List.map_snd_zip (by simp [lengths])

theorem map_rid_entriesOf {metadata : Metadata} {generation : Nat}
    (lengths : (methodsOfRows metadata generation).length = metadata.methods.size) :
    (entriesOf metadata generation).map (·.1.rid) = metadata.methods.toList.map (·.rid) := by
  rw [← map_fst_entriesOf lengths, List.map_map]
  rfl

/-- The methods that rows of a generation belong to are as many as there are rows, and different
ones that exist. -/
structure CoversRows (metadata : Metadata) (generation : Nat) : Prop where
  /-- There is one for each row. -/
  length_eq : (methodsOfRows metadata generation).length = metadata.methods.size
  /-- There is no method 0. -/
  ne_zero : ∀ method ∈ methodsOfRows metadata generation, method.val ≠ 0
  /-- No method has two rows. -/
  nodup : (methodsOfRows metadata generation).Nodup

/-- How taking in the methods of a generation fails. -/
inductive RowFault (metadata : Metadata) (generation : Nat) : Error → Prop
  /-- There are more or fewer methods than rows. -/
  | count (ne : (methodsOfRows metadata generation).length ≠ metadata.methods.size) :
    RowFault metadata generation
      (.malformed (.encMapCount (methodsOfRows metadata generation).length generation
        metadata.methods.size))
  /-- A row belongs to method 0. -/
  | zero (mem : ⟨0⟩ ∈ methodsOfRows metadata generation) :
    RowFault metadata generation (.malformed .encMapRowZero)
  /-- Two rows belong to a method. -/
  | twice {method : MethodId} (dup : List.Duplicate method (methodsOfRows metadata generation)) :
    RowFault metadata generation (.identityConflict (.methodTwice method generation))

/-- **Taking in the methods of a generation** fails exactly if rows are not covered, and assigns
each row to its method otherwise. -/
theorem update_cases {registry : MethodRegistry} {metadata : Metadata} {generation : Nat}
    (numbered : metadata.Numbered)
    (earlier : ∀ method place, registry.place? method = some place →
      place.generation < generation) :
    (CoversRows metadata generation ∧ ∃ new, registry.update metadata generation = .ok new ∧
      Assigned generation registry (entriesOf metadata generation) new) ∨
    ∃ e, RowFault metadata generation e ∧ registry.update metadata generation = .error e := by
  rw [update]
  by_cases lengths : (methodsOfRows metadata generation).length = metadata.methods.size
  · have start := assigned_nil generation registry
    have rids := numbered.nodup_rid_methods
    rw [← map_rid_entriesOf lengths, ← List.nil_append (entriesOf metadata generation)] at rids
    have methods := map_snd_entriesOf lengths
    rw [if_pos lengths]
    have folded := start.foldlM_cases earlier rids (by simp) List.nodup_nil
    rw [List.nil_append] at folded
    rcases folded with
      ⟨valid, distinct, new, eq, assigned⟩ | ⟨⟨entry, mem, zero⟩, eq⟩ | ⟨method, twice, eq⟩
    · refine .inl ⟨⟨lengths, ?_, methods ▸ distinct⟩, new, eq, assigned⟩
      rw [← methods]
      intro method mem
      obtain ⟨entry, entry_mem, rfl⟩ := List.mem_map.1 mem
      exact valid entry entry_mem
    · refine .inr ⟨_, .zero ?_, eq⟩
      rw [← methods, ← zero]
      exact List.mem_map_of_mem mem
    · rw [methods] at twice
      exact .inr ⟨_, .twice twice, eq⟩
  · rw [if_neg lengths]
    exact .inr ⟨_, .count lengths, rfl⟩

/-- Rows that are covered do not fail to be taken in. -/
theorem RowFault.not_coversRows {metadata : Metadata} {generation : Nat} {e : Error}
    (h : RowFault metadata generation e) : ¬CoversRows metadata generation := by
  intro covers
  cases h with
  | count ne => exact ne covers.length_eq
  | zero mem => exact covers.ne_zero _ mem rfl
  | twice dup => exact (List.nodup_iff_forall_not_duplicate.1 covers.nodup) _ dup

/-- **What taking in methods does**, if it succeeds: every row of the generation is assigned to a
method. -/
theorem assigned_of_update {registry : MethodRegistry} {metadata : Metadata} {generation : Nat}
    {new : Progress} (numbered : metadata.Numbered)
    (earlier : ∀ method place, registry.place? method = some place →
      place.generation < generation)
    (h : registry.update metadata generation = .ok new) :
    Assigned generation registry (entriesOf metadata generation) new ∧
      (entriesOf metadata generation).map (·.1) = metadata.methods.toList := by
  rcases update_cases numbered earlier with ⟨covers, taken, eq, assigned⟩ | ⟨e, -, failed⟩
  · obtain rfl := Except.ok.inj (eq.symm.trans h)
    exact ⟨assigned, map_fst_entriesOf covers.length_eq⟩
  · cases failed.symm.trans h

end MethodRegistry

/-- A row of generation `number` belongs to a method. In the first generation this is the method
with the number of the row, and later the one that the map of the update names at its place. -/
def Metadata.AssignsRow (metadata : Metadata) (number : Nat) (row : UInt32) (method : MethodId) :
    Prop :=
  (metadata.method? row).isSome ∧
    if number = 1 then method = ⟨row⟩
    else (metadata.methodTokens[row.toNat - 1]?).map (·.row) = some method.val

namespace MethodRegistry

/-- The method at some place among those that rows belong to. -/
theorem getElem?_methodsOfRows_eq_some_iff {metadata : Metadata} {number i : Nat}
    {record : MethodDebug} (at_place : metadata.methods[i]? = some record) {method : MethodId} :
    (methodsOfRows metadata number)[i]? = some method ↔
      if number = 1 then method = ⟨record.rid⟩
      else (metadata.methodTokens[i]?).map (·.row) = some method.val := by
  rw [methodsOfRows]
  by_cases first : number = 1
  · rw [if_pos first, if_pos first, List.getElem?_map, Array.getElem?_toList, at_place,
      Option.map_some, Option.some.injEq]
    exact eq_comm
  · rw [if_neg first, if_neg first, List.getElem?_map, Option.map_eq_some_iff,
      Option.map_eq_some_iff]
    refine exists_congr fun token => and_congr_right fun _ => ?_
    exact ⟨congrArg MethodId.val, congrArg MethodId.mk⟩

/-- **Rows are assigned by their places.** -/
theorem mem_entriesOf_iff {metadata : Metadata} (numbered : metadata.Numbered) {number : Nat}
    {row : UInt32} {method : MethodId} :
    (∃ record, (record, method) ∈ entriesOf metadata number ∧ record.rid = row) ↔
      metadata.AssignsRow number row method := by
  constructor
  · rintro ⟨record, mem, rfl⟩
    obtain ⟨i, found⟩ := List.mem_iff_getElem?.1 mem
    rw [entriesOf, List.getElem?_zip_eq_some, Array.getElem?_toList] at found
    obtain ⟨at_place, named⟩ := found
    obtain ⟨lt, rfl⟩ := Array.getElem?_eq_some_iff.1 at_place
    have place : metadata.methods[i].rid.toNat - 1 = i := by
      rw [numbered.methods i lt, Nat.add_sub_cancel]
    rw [Metadata.AssignsRow, place, numbered.method?_rid (Array.getElem_mem lt)]
    exact ⟨rfl, (getElem?_methodsOfRows_eq_some_iff at_place).1 named⟩
  · rintro ⟨has, named⟩
    obtain ⟨record, found⟩ := Option.isSome_iff_exists.1 has
    rw [Metadata.method?] at found
    obtain ⟨positive, at_place⟩ := Option.ite_none_left_eq_some.1 found
    have rid : record.rid = row := by
      obtain ⟨lt, rfl⟩ := Array.getElem?_eq_some_iff.1 at_place
      have positive := UInt32.toNat_inj.not.2 positive
      rw [UInt32.toNat_zero] at positive
      rw [← UInt32.toNat_inj, numbered.methods _ lt]
      omega
    subst rid
    refine ⟨record, List.mem_iff_getElem?.2 ⟨record.rid.toNat - 1, ?_⟩, rfl⟩
    rw [entriesOf, List.getElem?_zip_eq_some, Array.getElem?_toList]
    exact ⟨at_place, (getElem?_methodsOfRows_eq_some_iff at_place).2 named⟩

end MethodRegistry

end SymbolHistory
