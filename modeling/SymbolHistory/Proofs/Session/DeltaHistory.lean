import SymbolHistory.Proofs.Session.Fate

/-!
# Deltas over a session

The deltas of a method are worked out step by step: a new body has none, and an update that moves
the method adds some to those before. What they come to does not depend on the steps. It is the sum
of all deltas that were given for the method in the updates since it got its body, in any order.

## Main definitions

* `Update.deltasFor`, `givenDeltas` : the deltas that one or more updates give for a method.
* `Snapshot.Adds` : the deltas of a method are those that updates give.

## Main results

* `Session.adds_at` : that is so in every version, for the updates since a method got its body.
* `Session.deltas_since_body` : what the deltas of a method are, and that they can be applied.
-/

namespace SymbolHistory

/-- The deltas that an update gives for a method. -/
def Update.deltasFor (update : Update) (method : MethodId) : List LineDeltas :=
  (update.deltas.filter (·.1 = method)).map (·.2)

/-- The deltas that updates give for a method, one after the other. -/
def givenDeltas (updates : List Update) (method : MethodId) : List LineDeltas :=
  updates.flatMap (·.deltasFor method)

/-- The deltas for a method add up to the sum that it moves by. -/
theorem Update.sum_deltasFor (update : Update) (method : MethodId) :
    (update.deltasFor method).sum = Move.sumOf method update.deltas :=
  (Move.sumOf_eq_sum method update.deltas).symm

/-- An update gives deltas for the methods that it names. -/
theorem Update.deltasFor_eq_nil_iff {update : Update} {method : MethodId} :
    update.deltasFor method = [] ↔ method ∉ update.deltas.map (·.1) := by
  rw [deltasFor, List.map_eq_nil_iff, List.filter_eq_nil_iff, List.mem_map]
  constructor
  · rintro none ⟨entry, mem, same⟩
    exact none entry mem (decide_eq_true same)
  · intro unnamed entry mem same
    exact unnamed ⟨entry, mem, of_decide_eq_true same⟩

/-- The deltas of the last update come last. -/
theorem givenDeltas_append_singleton (updates : List Update) (update : Update)
    (method : MethodId) :
    givenDeltas (updates ++ [update]) method =
      givenDeltas updates method ++ update.deltasFor method := by
  rw [givenDeltas, List.flatMap_append, List.flatMap_singleton, givenDeltas]

/-- Updates give no deltas for a method that none of them names. -/
theorem givenDeltas_eq_nil_iff {updates : List Update} {method : MethodId} :
    givenDeltas updates method = [] ↔
      ∀ update ∈ updates, method ∉ update.deltas.map (·.1) := by
  rw [givenDeltas, List.flatMap_eq_nil_iff]
  exact forall₂_congr fun _ _ => Update.deltasFor_eq_nil_iff

namespace LineDeltas

/-- Deltas can belong to a method with so many points: if single points have deltas, then all. -/
def Fits (deltas : LineDeltas) (count : Nat) : Prop :=
  deltas.single = [] ∨ deltas.single.length = count

/-- The sum of deltas that fit fits. -/
theorem Fits.add {deltas others : LineDeltas} {count : Nat} (h : deltas.Fits count)
    (h' : others.Fits count) : (deltas + others).Fits count := by
  have length : (deltas + others).single.length =
      max deltas.single.length others.single.length := length_addPointwise _ _
  rcases h with none | all
  · rcases h' with none' | all'
    · refine .inl (List.length_eq_zero_iff.1 ?_)
      rw [length, none, none']
      rfl
    · refine .inr ?_
      rw [length, none, all', List.length_nil, Nat.zero_max]
  · refine .inr ?_
    rcases h' with none' | all'
    · rw [length, none', all, List.length_nil, Nat.max_zero]
    · rw [length, all, all', Nat.max_self]

end LineDeltas

namespace Snapshot

/-- The deltas of methods are those that updates gave since the methods got their bodies. -/
structure Adds (snapshot : Snapshot) (updates : List Update) : Prop where
  /-- Unknown methods have none. -/
  unplaced : ∀ method, snapshot.place? method = none → snapshot.deltas? method = none
  /-- Debug information comes from one of the updates. -/
  owned : ∀ method place, snapshot.place? method = some place →
    place.generation ≤ updates.length
  /-- A method has what later updates come to. -/
  total : ∀ method place, snapshot.place? method = some place →
    snapshot.deltas? method =
      LineDeltas.total? (givenDeltas (updates.drop place.generation) method)
  /-- Its deltas are for as many points as it has. -/
  fits : ∀ method deltas, snapshot.deltas? method = some deltas →
    ∀ points, snapshot.storedPoints? method = some points → deltas.Fits points.length

/-- Versions that are alike have the same stored points. -/
theorem Alike.storedPoints?_eq {snapshot other : Snapshot} (h : snapshot.Alike other) :
    snapshot.storedPoints? = other.storedPoints? := by
  funext method
  rw [storedPoints?, storedPoints?, h.record?_eq]

/-- Versions that are alike have the same deltas. -/
theorem Adds.keep {snapshot other : Snapshot} {updates : List Update} (h : other.Adds updates)
    (alike : snapshot.Alike other) : snapshot.Adds updates := by
  have places := alike.answersAlike.place?
  have deltas := alike.answersAlike.deltas?
  have points := alike.storedPoints?_eq
  obtain ⟨unplaced, owned, total, fits⟩ := h
  rw [← places, ← deltas] at total
  rw [← places] at owned
  rw [← places, ← deltas] at unplaced
  rw [← deltas, ← points] at fits
  exact ⟨unplaced, owned, total, fits⟩

/-- A method has the deltas that some updates gave for it, and they can be applied to its points. -/
structure MovedBy (snapshot : Snapshot) (method : MethodId) (updates : List Update) : Prop where
  /-- It has none exactly if no update names it. -/
  none_iff : snapshot.deltas? method = none ↔
    ∀ update ∈ updates, method ∉ update.deltas.map (·.1)
  /-- They are what the updates gave, in any order. -/
  total : ∀ given, given.Perm (givenDeltas updates method) →
    snapshot.deltas? method = LineDeltas.total? given
  /-- The method has points, which its deltas fit and leave on valid lines. -/
  applicable : ∃ points, snapshot.storedPoints? method = some points ∧
    ∀ deltas, snapshot.deltas? method = some deltas →
      deltas.Fits points.length ∧ deltas.strayLine? points = none

/-- A version that adds up deltas moves methods by what was given since they got their bodies. -/
theorem Adds.movedBy {snapshot : Snapshot} {updates : List Update} (h : snapshot.Adds updates)
    (sound : snapshot.Sound) {method : MethodId} {place : MethodPlace}
    (placed : snapshot.place? method = some place) :
    snapshot.MovedBy method (updates.drop place.generation) := by
  have total := h.total method place placed
  constructor
  · rw [total, ← givenDeltas_eq_nil_iff, LineDeltas.total?_eq, ite_eq_left_iff]
    simp
  · intro given perm
    rw [total, LineDeltas.total?_eq_of_perm perm]
  · obtain ⟨-, content, -, tracks⟩ := sound
    obtain ⟨owner, points, lines⟩ := tracks.known method place placed
    have stored := storedPoints?_of_pointsAt placed lines.at_place
    exact ⟨points, stored, fun deltas moved =>
      ⟨h.fits method deltas moved points stored, lines.valid deltas moved⟩⟩

end Snapshot

namespace Session

/-- Before any update, no method has moved. -/
theorem adds_empty : empty.known.Adds [] := by
  have still : ∀ method, empty.known.deltas? method = none := fun _ => by
    simp [known, empty, state, State.empty, Snapshot.deltas?]
  refine ⟨fun method _ => still method, fun method place placed => ?_,
    fun method place placed => ?_, fun method deltas moved => ?_⟩
  · cases (place?_known_empty method).symm.trans placed
  · cases (place?_known_empty method).symm.trans placed
  · cases (still method).symm.trans moved

/-- **Taking in an update adds what it gives** to the deltas of methods that keep their body. -/
theorem Taken.adds {session : Session} {updates : List Update} {update : Update}
    {generation : Generation} {moves : List Move} {spans : List MethodSpans}
    (h : session.Taken update generation moves spans) (sound : session.Sound)
    (numbered : update.metadata.Numbered) (version : session.version = updates.length)
    (adds : session.known.Adds updates) :
    Snapshot.Adds ⟨session.generations.push generation, generation.state⟩
      (updates ++ [update]) := by
  have fate := h.fate sound numbered
  have length : (updates ++ [update]).length = updates.length + 1 := List.length_append
  have points : ∀ {method},
      Snapshot.place? ⟨session.generations.push generation, generation.state⟩ method =
        session.known.place? method →
      Snapshot.storedPoints? ⟨session.generations.push generation, generation.state⟩ method =
        session.known.storedPoints? method := by
    intro method place
    rw [Snapshot.storedPoints?, Snapshot.storedPoints?, record?_push sound generation place]
  constructor
  · intro method unplaced
    cases fate method with
    | redefined row _ place _ => cases place.symm.trans unplaced
    | moved _ _ movable place _ =>
        obtain ⟨points, stored, -⟩ := movable
        rw [Snapshot.storedPoints?_of_unplaced (place.symm.trans unplaced)] at stored
        cases stored
    | untouched _ _ place deltas =>
        exact deltas.trans (adds.unplaced method (place.symm.trans unplaced))
  · intro method found placed
    rw [length]
    cases fate method with
    | redefined row _ place _ =>
        obtain rfl := Option.some.inj (place.symm.trans placed)
        exact Nat.succ_le_succ version.le
    | moved _ _ _ place _ =>
        exact Nat.le_succ_of_le (adds.owned method found (place.symm.trans placed))
    | untouched _ _ place _ =>
        exact Nat.le_succ_of_le (adds.owned method found (place.symm.trans placed))
  · intro method found placed
    cases fate method with
    | redefined row _ place deltas =>
        -- Nothing came after the update that brought the body.
        obtain rfl := Option.some.inj (place.symm.trans placed)
        rw [deltas, version, ← length, List.drop_length]
        rfl
    | moved _ named movable place deltas =>
        have placed := place.symm.trans placed
        have given : update.deltasFor method ≠ [] := fun none =>
          Update.deltasFor_eq_nil_iff.1 none named
        rw [deltas, Snapshot.totalWith, adds.total method found placed,
          List.drop_append_of_le_length (adds.owned method found placed),
          givenDeltas_append_singleton, LineDeltas.total?_append given, Update.sum_deltasFor]
    | untouched _ unnamed place deltas =>
        have placed := place.symm.trans placed
        rw [deltas, adds.total method found placed,
          List.drop_append_of_le_length (adds.owned method found placed),
          givenDeltas_append_singleton, Update.deltasFor_eq_nil_iff.2 unnamed, List.append_nil]
  · intro method total moved known stored
    cases fate method with
    | redefined _ _ _ deltas => cases deltas.symm.trans moved
    | moved _ _ movable place deltas =>
        obtain rfl := Option.some.inj (deltas.symm.trans moved)
        rw [points place] at stored
        obtain ⟨same, stored', fit, -⟩ := movable
        obtain rfl := Option.some.inj (stored'.symm.trans stored)
        rw [Snapshot.totalWith]
        cases before : session.known.deltas? method with
        | none => exact fit
        | some deltas => exact (adds.fits method deltas before same stored).add fit
    | untouched _ _ place deltas =>
        rw [points place] at stored
        exact adds.fits method total (deltas.symm.trans moved) known stored

/-- **Every version adds up deltas**, whatever happened before, as long as the rows of updates are
numbered. -/
theorem adds_at {events : List Event}
    (numbered : ∀ update, .offer update ∈ events → update.metadata.Numbered) {version : Nat}
    {snapshot : Snapshot} (known : (ofEvents events).at? version = some snapshot) :
    snapshot.Adds ((empty.accepted events).take version) :=
  at?_induction_of_numbered numbered adds_empty (fun _ _ _ alike adds => adds.keep alike)
    (fun _ _ _ _ _ _ sound own length adds taken => taken.adds sound own length adds) known

/-- **The deltas of a method are all that was given for it since it got its body**, in any order: by
the updates that were taken in after the one that its debug information is from. So neither deltas
that came before or along with the body count, nor those of updates that were refused. -/
theorem deltas_since_body {events : List Event}
    (numbered : ∀ update, .offer update ∈ events → update.metadata.Numbered) {version : Nat}
    {snapshot : Snapshot} (known : (ofEvents events).at? version = some snapshot)
    {method : MethodId} {place : MethodPlace} (placed : snapshot.place? method = some place) :
    place.generation ≤ version ∧
      snapshot.MovedBy method
        (((empty.accepted events).take version).drop place.generation) := by
  have adds := adds_at numbered known
  refine ⟨?_, adds.movedBy (sound_ofEvents numbered version snapshot known) placed⟩
  exact (adds.owned method place placed).trans (List.length_take_le _ _)

/-- A program with one method, which moves. -/
theorem deltas_since_body_moveDown :
    (∀ update, .offer update ∈ [Event.offer oneMethod, .offer moveDown] →
      update.metadata.Numbered) ∧
      ∃ snapshot, (ofEvents [.offer oneMethod, .offer moveDown]).at? 2 = some snapshot ∧
        snapshot.place? ⟨1⟩ = some ⟨1, 1⟩ ∧ snapshot.MovedBy ⟨1⟩ [moveDown] := by
  obtain ⟨accepted, snapshot, known, placed, -⟩ := exists_at?_moveDown
  have moved := (deltas_since_body numbered_oneMethod_moveDown known placed).2
  rw [accepted] at moved
  exact ⟨numbered_oneMethod_moveDown, snapshot, known, placed, moved⟩

end Session

end SymbolHistory
