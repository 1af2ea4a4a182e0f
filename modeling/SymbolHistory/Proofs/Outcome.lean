import SymbolHistory.Error
import SymbolHistory.Parallel
import Mathlib.Algebra.GroupWithZero.Nat
import Mathlib.Data.List.Forall2

/-!
# Steps that can fail

What it means that steps with `Except` succeed, one after the other, all along a list, or in
parallel.

## Main results

* `Outcome.bind_eq_ok_iff` : a step followed by another one succeeds.
* `Outcome.mapM_eq_ok_iff` : a step succeeds on every member of a list.
* `Outcome.mapM_cases` : and fails as it does on one of them otherwise.
* `Outcome.mapParallel_eq_ok_iff`, `Outcome.exists_mapParallel_eq_error_iff` : steps in parallel
  come to the same, but for the member that they fail on.
* `Outcome.results_of_foldlM` : what steps that collect results and keep a state have done.
* `Outcome.exists_foldlM` : steps with a cost succeed while there is room.
-/

namespace SymbolHistory.Outcome

variable {α β γ ε : Type}

/-- Two steps one after the other succeed exactly if the first one does, and the second one on its
result. -/
theorem bind_eq_ok_iff {first : Except ε α} {next : α → Except ε β} {b : β} :
    (first >>= next) = .ok b ↔ ∃ a, first = .ok a ∧ next a = .ok b := by
  cases first with
  | error e => simp [bind, Except.bind]
  | ok a => simp [bind, Except.bind]

/-- A step that succeeds hands its result on. -/
theorem bind_of_ok {first : Except ε α} {next : α → Except ε β} {a : α} (h : first = .ok a) :
    (first >>= next) = next a := by
  rw [h]
  rfl

/-- Nothing follows a step that fails. -/
theorem bind_of_error {first : Except ε α} {next : α → Except ε β} {e : ε}
    (h : first = .error e) : (first >>= next) = .error e := by
  rw [h]
  rfl

/-- A step fails exactly if it does without what is made of its result. -/
theorem bind_ok_eq_error_iff {first : Except ε α} {f : α → β} {e : ε} :
    (first >>= fun a => .ok (f a)) = .error e ↔ first = .error e := by
  cases first with
  | error e => constructor <;> (rintro ⟨⟩; rfl)
  | ok a => constructor <;> rintro ⟨⟩

/-- Two steps come to the same if the second ones do, on what the first one yields. -/
theorem bind_congr {first : Except ε α} {next other : α → Except ε β}
    (h : ∀ a, first = .ok a → next a = other a) : (first >>= next) = (first >>= other) := by
  cases first with
  | error e => rfl
  | ok a => exact h a rfl

/-- A result is worked on exactly if there is one. -/
theorem map_eq_ok_iff {f : α → β} {first : Except ε α} {b : β} :
    f <$> first = .ok b ↔ ∃ a, first = .ok a ∧ f a = b := by
  cases first with
  | error e => simp [Functor.map, Except.map]
  | ok a => simp [Functor.map, Except.map]

theorem pure_eq_ok_iff {a b : α} : (pure a : Except ε α) = .ok b ↔ a = b :=
  Except.ok.injEq a b ▸ Iff.rfl

/-- A step succeeds all along a list exactly if it does on every member, and the results come in the
same order. -/
theorem mapM_eq_ok_iff {f : α → Except ε β} {as : List α} {bs : List β} :
    as.mapM f = .ok bs ↔ List.Forall₂ (fun a b => f a = .ok b) as bs := by
  induction as generalizing bs with
  | nil => simp [pure, Except.pure, eq_comm]
  | cons a as ih =>
      rw [List.mapM_cons, bind_eq_ok_iff, List.forall₂_cons_left_iff]
      constructor
      · rintro ⟨b, first, rest⟩
        obtain ⟨bs, others, eq⟩ := bind_eq_ok_iff.1 rest
        exact ⟨b, bs, first, ih.1 others, (pure_eq_ok_iff.1 eq).symm⟩
      · rintro ⟨b, bs, first, others, rfl⟩
        exact ⟨b, first, bind_eq_ok_iff.2 ⟨bs, ih.2 others, rfl⟩⟩

/-- Every result of steps along a list is that of a member. -/
theorem exists_of_mem_results {f : α → Except ε β} {as : List α} {bs : List β}
    (h : as.mapM f = .ok bs) {b : β} (mem : b ∈ bs) : ∃ a ∈ as, f a = .ok b := by
  have steps := mapM_eq_ok_iff.1 h
  clear h
  induction steps with
  | nil => exact absurd mem List.not_mem_nil
  | @cons first result as bs step _ ih =>
      rcases List.mem_cons.1 mem with rfl | mem
      · exact ⟨first, List.mem_cons_self, step⟩
      · obtain ⟨a, a_mem, step⟩ := ih mem
        exact ⟨a, List.mem_cons_of_mem _ a_mem, step⟩

/-- Every member of a list has a result, if steps along it succeed. -/
theorem exists_result_of_mem {f : α → Except ε β} {as : List α} {bs : List β}
    (h : as.mapM f = .ok bs) {a : α} (mem : a ∈ as) : ∃ b ∈ bs, f a = .ok b := by
  have steps := mapM_eq_ok_iff.1 h
  clear h
  induction steps with
  | nil => exact absurd mem List.not_mem_nil
  | @cons first result as bs step _ ih =>
      rcases List.mem_cons.1 mem with rfl | mem
      · exact ⟨result, List.mem_cons_self, step⟩
      · obtain ⟨b, b_mem, step⟩ := ih mem
        exact ⟨b, List.mem_cons_of_mem _ b_mem, step⟩

/-- Steps along a list succeed if they do on every member, and fail as they do on one of them if
not. -/
theorem mapM_cases (f : α → Except ε β) (as : List α) :
    ((∀ a ∈ as, ∃ b, f a = .ok b) ∧ ∃ bs, as.mapM f = .ok bs) ∨
      ∃ a ∈ as, ∃ e, f a = .error e ∧ as.mapM f = .error e := by
  induction as with
  | nil => exact .inl ⟨by simp, [], rfl⟩
  | cons a as ih =>
      rw [List.mapM_cons]
      cases first : f a with
      | error e => exact .inr ⟨a, List.mem_cons_self, e, first, rfl⟩
      | ok b =>
          rcases ih with ⟨each, bs, eq⟩ | ⟨other, mem, e, failed, eq⟩
          · refine .inl ⟨List.forall_mem_cons.2 ⟨⟨b, first⟩, each⟩, b :: bs, ?_⟩
            rw [eq]
            rfl
          · refine .inr ⟨other, List.mem_cons_of_mem _ mem, e, failed, ?_⟩
            rw [eq]
            rfl

/-! ### Steps in parallel -/

/-- Steps in parallel have the results that they have one after the other. -/
theorem mapParallel_eq_ok_iff {lead : Nat} {f : α → Except ε β} {as : List α} {bs : List β} :
    mapParallel lead f as = .ok bs ↔ as.mapM f = .ok bs := by
  rw [mapParallel]
  cases found : as[lead]? with
  | none => rfl
  | some a =>
      refine ⟨fun h => (bind_eq_ok_iff.1 h).choose_spec.2, fun h => ?_⟩
      obtain ⟨b, -, first⟩ := exists_result_of_mem h (List.mem_of_getElem? found)
      exact bind_eq_ok_iff.2 ⟨b, first, h⟩

/-- Steps in parallel succeed if they do on every member, and fail as they do on one of them if
not. -/
theorem mapParallel_cases (lead : Nat) (f : α → Except ε β) (as : List α) :
    ((∀ a ∈ as, ∃ b, f a = .ok b) ∧ ∃ bs, mapParallel lead f as = .ok bs) ∨
      ∃ a ∈ as, ∃ e, f a = .error e ∧ mapParallel lead f as = .error e := by
  rw [mapParallel]
  cases found : as[lead]? with
  | none => exact mapM_cases f as
  | some a =>
      dsimp only
      cases first : f a with
      | error e => exact .inr ⟨a, List.mem_of_getElem? found, e, first, rfl⟩
      | ok b => exact mapM_cases f as

/-- **Any member that steps in parallel fail on can be the one that they fail with**, for it can be
the one that is ahead. -/
theorem exists_mapParallel_eq_error_iff {f : α → Except ε β} {as : List α} {e : ε} :
    (∃ lead, mapParallel lead f as = .error e) ↔ ∃ a ∈ as, f a = .error e := by
  constructor
  · rintro ⟨lead, failed⟩
    rcases mapParallel_cases lead f as with ⟨-, bs, eq⟩ | ⟨a, mem, e', own, eq⟩
    · cases failed.symm.trans eq
    · obtain rfl := Except.error.inj (failed.symm.trans eq)
      exact ⟨a, mem, own⟩
  · rintro ⟨a, mem, failed⟩
    obtain ⟨lead, lt, rfl⟩ := List.mem_iff_getElem.1 mem
    refine ⟨lead, ?_⟩
    rw [mapParallel, List.getElem?_eq_getElem lt]
    exact bind_of_error failed

/-! ### Steps with a state -/

/-- **What steps with a state have done**, if each puts one result behind the others. Every result
suits its member in the last state, if states only grow and results keep on suiting. -/
theorem results_of_foldlM {σ : Type} {step : σ × Array β → α → Except ε (σ × Array β)}
    (Valid : σ → Prop) (Grows : σ → σ → Prop) (Suits : σ → β → α → Prop)
    (valid_of : ∀ {state later}, Grows state later → Valid later)
    (refl : ∀ {state}, Valid state → Grows state state)
    (trans : ∀ {first second third}, Grows first second → Grows second third → Grows first third)
    (keep : ∀ {state later b a}, Grows state later → Suits state b a → Suits later b a)
    (one : ∀ {state later done all a}, Valid state → step (state, done) a = .ok (later, all) →
      Grows state later ∧ ∃ b, all = done.push b ∧ Suits later b a)
    {as : List α} {state later : σ} {done all : Array β} (valid : Valid state)
    (h : as.foldlM step (state, done) = .ok (later, all)) :
    Grows state later ∧ ∃ bs : List β, all = done ++ bs ∧ List.Forall₂ (Suits later) bs as := by
  induction as generalizing state done with
  | nil =>
      obtain ⟨rfl, rfl⟩ := Prod.mk.inj (Except.ok.inj h)
      exact ⟨refl valid, [], by simp, .nil⟩
  | cons a as ih =>
      rw [List.foldlM_cons, bind_eq_ok_iff] at h
      obtain ⟨⟨middle, some⟩, first, rest⟩ := h
      obtain ⟨grows, b, rfl, suits⟩ := one valid first
      obtain ⟨grows_on, bs, rfl, suit⟩ := ih (valid_of grows) rest
      exact ⟨trans grows grows_on, b :: bs, by simp, .cons (keep grows_on suits) suit⟩

/-- **Steps with a cost succeed while there is room**, and take up what they cost at most. -/
theorem exists_foldlM {σ : Type} {step : σ → α → Except ε σ} (Valid : σ → Prop) (size : σ → Nat)
    (cost : α → Nat) {bound : Nat}
    (one : ∀ state a, Valid state → size state + cost a ≤ bound →
      ∃ next, step state a = .ok next ∧ Valid next ∧ size next ≤ size state + cost a)
    (as : List α) (state : σ) (valid : Valid state)
    (room : size state + (as.map cost).sum ≤ bound) :
    ∃ last, as.foldlM step state = .ok last ∧ Valid last ∧
      size last ≤ size state + (as.map cost).sum := by
  induction as generalizing state with
  | nil => exact ⟨state, rfl, valid, Nat.le_add_right _ _⟩
  | cons a as ih =>
      rw [List.map_cons, List.sum_cons] at room ⊢
      obtain ⟨next, first, next_valid, next_size⟩ := one state a valid (by omega)
      obtain ⟨last, rest, last_valid, last_size⟩ := ih next next_valid (by omega)
      refine ⟨last, ?_, last_valid, by omega⟩
      rw [List.foldlM_cons, bind_eq_ok_iff]
      exact ⟨next, first, rest⟩

end SymbolHistory.Outcome
