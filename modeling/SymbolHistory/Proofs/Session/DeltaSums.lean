import SymbolHistory.Proofs.Session.Move

/-!
# Sums of line deltas

Line deltas that come along with an update may name a method several times. They are added up while
they are put in order, and what comes out is, for every method that is named, the sum of all deltas
that are given for it.

## Main definitions

* `Move.sumOf` : the sum of all deltas for a method.

## Main results

* `Move.mem_sumByMethod_iff` : what line deltas come to by method.
-/

namespace SymbolHistory

namespace Move

/-- The sum of all deltas that are given for a method. -/
def sumOf (method : MethodId) (deltas : List (MethodId × LineDeltas)) : LineDeltas :=
  ((deltas.filter (·.1 = method)).map (·.2)).foldl (· + ·) 0

/-- The sum of all deltas for a method is that of the monoid of deltas. -/
theorem sumOf_eq_sum (method : MethodId) (deltas : List (MethodId × LineDeltas)) :
    sumOf method deltas = ((deltas.filter (·.1 = method)).map (·.2)).sum :=
  List.sum_eq_foldl.symm

/-- Another entry counts if it is for the method. -/
theorem sumOf_append_singleton (method : MethodId) (deltas : List (MethodId × LineDeltas))
    (last : MethodId × LineDeltas) :
    sumOf method (deltas ++ [last]) =
      if last.1 = method then sumOf method deltas + last.2 else sumOf method deltas := by
  rw [sumOf, List.filter_append, List.map_append, List.foldl_append]
  by_cases own : last.1 = method
  · simp [own, sumOf]
  · simp [own, sumOf]

/-- Deltas that nobody gave are none. -/
theorem sumOf_of_notMem {method : MethodId} {deltas : List (MethodId × LineDeltas)}
    (h : method ∉ deltas.map (·.1)) : sumOf method deltas = 0 := by
  have none : deltas.filter (·.1 = method) = [] := by
    rw [List.filter_eq_nil_iff]
    intro entry mem same
    exact h (of_decide_eq_true same ▸ List.mem_map_of_mem mem)
  rw [sumOf, none]
  rfl

/-- The first entry is what is found for its own method, and does not matter to others. -/
theorem lookup_cons_eq_ite (method other : MethodId) (deltas : LineDeltas)
    (sums : List (MethodId × LineDeltas)) :
    ((method, deltas) :: sums).lookup other =
      if other = method then some deltas else sums.lookup other := by
  rw [List.lookup_cons]
  by_cases same : other = method
  · simp [same]
  · have apart : (other == method) = false := by simpa using same
    rw [apart, if_neg same]

/-- What is known of a method after deltas are added: they are added to its own entry. -/
theorem lookup_insertDeltas (method other : MethodId) (deltas : LineDeltas)
    {sums : List (MethodId × LineDeltas)} (h : sums.Pairwise (·.1.val < ·.1.val)) :
    (insertDeltas method deltas sums).lookup other =
      if other = method then some ((sums.lookup method).elim deltas (· + deltas))
      else sums.lookup other := by
  induction sums with
  | nil => exact lookup_cons_eq_ite method other deltas []
  | cons first sums ih =>
      rcases first with ⟨named, known⟩
      obtain ⟨later, rest⟩ := List.pairwise_cons.1 h
      rw [insertDeltas, lookup_cons_eq_ite named method]
      by_cases own : method = named
      · subst own
        rw [if_pos rfl, if_pos rfl, lookup_cons_eq_ite, lookup_cons_eq_ite]
        by_cases same : other = method
        · rw [if_pos same, if_pos same, Option.elim_some]
        · rw [if_neg same, if_neg same, if_neg same]
      · rw [if_neg own, if_neg own]
        by_cases before : method.val < named.val
        · -- All entries of the list are of later methods.
          have absent : sums.lookup method = none := by
            rw [List.lookup_eq_none_iff]
            intro entry mem
            have lt := UInt32.lt_trans before (later entry mem)
            rw [bne_iff_ne]
            rintro rfl
            exact UInt32.lt_irrefl _ lt
          rw [if_pos before, absent, lookup_cons_eq_ite, Option.elim_none]
        · rw [if_neg before, lookup_cons_eq_ite, ih rest, lookup_cons_eq_ite]
          by_cases first : other = named
          · rw [if_pos first, if_pos first, if_neg fun same => own (same.symm.trans first)]
          · rw [if_neg first, if_neg first]

/-- **What line deltas come to by method**: every method that is named has one entry, which is the
sum of its deltas. -/
theorem lookup_sumByMethod (deltas : List (MethodId × LineDeltas)) (method : MethodId) :
    (sumByMethod deltas).lookup method =
      if method ∈ deltas.map (·.1) then some (sumOf method deltas) else none := by
  induction deltas using List.reverseRecOn with
  | nil => rfl
  | append_singleton deltas last ih =>
      have step : sumByMethod (deltas ++ [last]) =
          insertDeltas last.1 last.2 (sumByMethod deltas) := by
        rw [sumByMethod, List.foldl_append]
        rfl
      rw [step, lookup_insertDeltas _ _ _ (pairwise_sumByMethod deltas), sumOf_append_singleton,
        List.map_append, List.map_singleton]
      by_cases own : method = last.1
      · subst own
        rw [if_pos rfl, if_pos (by simp), if_pos rfl, ih]
        by_cases known : last.1 ∈ deltas.map (·.1)
        · rw [if_pos known, Option.elim_some]
        · rw [if_neg known, Option.elim_none, sumOf_of_notMem known, zero_add]
      · rw [if_neg own, if_neg (Ne.symm own), ih]
        simp only [List.mem_append, List.mem_singleton, own, or_false]

/-- There is one entry for each method with deltas, and it has the sum of all of these. -/
theorem mem_sumByMethod_iff {deltas : List (MethodId × LineDeltas)} {method : MethodId}
    {sum : LineDeltas} :
    (method, sum) ∈ sumByMethod deltas ↔
      method ∈ deltas.map (·.1) ∧ sum = sumOf method deltas := by
  have found : (method, sum) ∈ sumByMethod deltas ↔
      (sumByMethod deltas).lookup method = some sum := by
    constructor
    · intro mem
      obtain ⟨before, after, eq⟩ := List.append_of_mem mem
      refine List.lookup_eq_some_iff.2 ⟨before, after, eq, fun entry entry_mem => ?_⟩
      have sorted := pairwise_sumByMethod deltas
      rw [eq, List.pairwise_append] at sorted
      have lt := sorted.2.2 entry entry_mem (method, sum) List.mem_cons_self
      rw [bne_iff_ne]
      rintro rfl
      exact UInt32.lt_irrefl _ lt
    · intro found
      obtain ⟨before, after, eq, -⟩ := List.lookup_eq_some_iff.1 found
      rw [eq]
      exact List.mem_append_right _ List.mem_cons_self
  rw [found, lookup_sumByMethod]
  by_cases known : method ∈ deltas.map (·.1)
  · rw [if_pos known, Option.some.injEq]
    exact ⟨fun eq => ⟨known, eq.symm⟩, fun eq => eq.2.symm⟩
  · rw [if_neg known]
    exact ⟨fun eq => absurd eq (by simp), fun eq => absurd eq.1 known⟩

end Move

end SymbolHistory
