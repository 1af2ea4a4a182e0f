import SymbolHistory.Session.Move
import SymbolHistory.Proofs.LineIndex.Content
import SymbolHistory.Proofs.LineDeltas
import SymbolHistory.Proofs.Outcome

/-!
# What line deltas come to

Line deltas that come along with an update are added up by method, checked against the points of the
method, and worked into its extents. Each method that they name moves once, either as a whole or to
spans that are worked out from its moved points.

## Main definitions

* `PointsAt` : the points that the debug information at a place says.
* `Move.Planned` : what a move is, for given points and deltas.
* `Move.Effect.entry`, `Move.performOn` : what moves make of the spans of methods.

## Main results

* `Move.plan_eq_ok` : what a move is that passes the checks.
* `Move.nodup_methods_of_planAll` : no method moves twice.
* `Move.performOn_of_mem`, `Move.performOn_of_forall_ne` : what becomes of one method.
* `Move.represents_performAll` : making moves changes a line index as it changes the map.
-/

namespace SymbolHistory

/-- The debug information at a place belongs to a generation and says these points. -/
structure PointsAt (generations : Array Generation) (place : MethodPlace) (owner : Generation)
    (points : List SequencePoint) : Prop where
  /-- The generation that owns it. -/
  owner_at : generationAt? generations place.generation = some owner
  /-- Its line table can be read. -/
  decoded : ∃ record, owner.metadata.method? place.row = some record ∧ record.points = .ok points

/-- A generation is found exactly if it is there. -/
theorem generationOf_eq_ok_iff {generations : Array Generation} {number : Nat}
    {generation : Generation} :
    generationOf generations number = .ok generation ↔
      generationAt? generations number = some generation := by
  rw [generationOf]
  cases generationAt? generations number <;> simp

namespace Move

/-! ### Sums by method -/

/-- Inserting deltas of a method makes no entries for others. -/
theorem mem_insertDeltas {method : MethodId} {deltas : LineDeltas}
    {sums : List (MethodId × LineDeltas)} {entry : MethodId × LineDeltas}
    (h : entry ∈ insertDeltas method deltas sums) :
    entry.1 = method ∨ ∃ known ∈ sums, known.1 = entry.1 := by
  induction sums with
  | nil =>
      obtain rfl := List.mem_singleton.1 h
      exact .inl rfl
  | cons first sums ih =>
      rcases first with ⟨other, known⟩
      rw [insertDeltas] at h
      by_cases same : method = other
      · rw [if_pos same] at h
        rcases List.mem_cons.1 h with rfl | mem
        · exact .inl same.symm
        · exact .inr ⟨entry, List.mem_cons_of_mem _ mem, rfl⟩
      · rw [if_neg same] at h
        by_cases before : method.val < other.val
        · rw [if_pos before] at h
          rcases List.mem_cons.1 h with rfl | mem
          · exact .inl rfl
          · exact .inr ⟨entry, mem, rfl⟩
        · rw [if_neg before] at h
          rcases List.mem_cons.1 h with rfl | mem
          · exact .inr ⟨_, List.mem_cons_self, rfl⟩
          · rcases ih mem with eq | ⟨found, found_mem, eq⟩
            · exact .inl eq
            · exact .inr ⟨found, List.mem_cons_of_mem _ found_mem, eq⟩

/-- Entries stay in the order of their methods. -/
theorem pairwise_insertDeltas (method : MethodId) (deltas : LineDeltas)
    {sums : List (MethodId × LineDeltas)} (h : sums.Pairwise (·.1.val < ·.1.val)) :
    (insertDeltas method deltas sums).Pairwise (·.1.val < ·.1.val) := by
  induction sums with
  | nil => exact List.pairwise_singleton _ _
  | cons first sums ih =>
      rcases first with ⟨other, known⟩
      obtain ⟨later, rest⟩ := List.pairwise_cons.1 h
      rw [insertDeltas]
      by_cases same : method = other
      · rw [if_pos same]
        exact List.pairwise_cons.2 ⟨later, rest⟩
      · rw [if_neg same]
        by_cases before : method.val < other.val
        · rw [if_pos before]
          refine List.pairwise_cons.2 ⟨fun entry mem => ?_, h⟩
          rcases List.mem_cons.1 mem with rfl | mem
          · exact before
          · exact UInt32.lt_trans before (later entry mem)
        · rw [if_neg before]
          refine List.pairwise_cons.2 ⟨fun entry mem => ?_, ih rest⟩
          rcases mem_insertDeltas mem with eq | ⟨found, found_mem, eq⟩
          · -- The method is neither the first one nor in front of it.
            have ne : method.val.toNat ≠ other.val.toNat := by
              rw [ne_eq, UInt32.toNat_inj]
              exact fun eq => same (congrArg MethodId.mk eq)
            rw [UInt32.lt_iff_toNat_lt] at before
            have lt : other.val.toNat < method.val.toNat := by omega
            rw [eq]
            exact UInt32.lt_iff_toNat_lt.2 lt
          · exact eq ▸ later found found_mem

/-- Line deltas that are added up by method have one entry for each method. -/
theorem pairwise_sumByMethod (deltas : List (MethodId × LineDeltas)) :
    (sumByMethod deltas).Pairwise (·.1.val < ·.1.val) :=
  List.foldlRecOn deltas _ List.Pairwise.nil fun _ h entry _ =>
    pairwise_insertDeltas entry.1 entry.2 h

/-! ### Planned moves -/

/-- The move that deltas come to, for a method with these points. The deltas that were known before
count for the total. -/
structure Planned (method : MethodId) (version : Nat) (owner : Generation)
    (known : Option LineDeltas) (deltas : LineDeltas) (points : List SequencePoint) (move : Move) :
    Prop where
  /-- It is the method's. -/
  method_eq : move.method = method
  /-- The total says where the points are now, from where they are stored. -/
  total_eq : move.total = known.elim deltas (· + deltas)
  /-- All lines stay valid. -/
  valid : move.total.strayLine? points = none
  /-- Points that do not move alike have their spans worked out anew. -/
  effect : (deltas.isUniform ∧ move.effect = .shift deltas.common) ∨
    ∃ spans, Span.ofPoints owner.documentId? (move.total.apply points) = .ok spans ∧
      move.effect = .reshape version spans

/-- What a plan says that was made from points. -/
theorem planPoints_eq_ok {method : MethodId} {version : Nat} {owner : Generation}
    {known : Option LineDeltas} {deltas : LineDeltas} {points : List SequencePoint} {move : Move}
    (h : planPoints method version owner known deltas points = .ok move) :
    Planned method version owner known deltas points move := by
  rw [planPoints] at h
  by_cases fit : fits deltas points.length
  · rw [if_pos fit] at h
    cases stray : (known.elim deltas (· + deltas)).strayLine? points with
    | some line =>
        simp only [stray] at h
        cases h
    | none =>
        simp only [stray] at h
        by_cases uniform : deltas.isUniform
        · rw [if_pos uniform] at h
          obtain rfl := Except.ok.inj h
          exact ⟨rfl, rfl, stray, .inl ⟨uniform, rfl⟩⟩
        · rw [if_neg uniform] at h
          obtain ⟨spans, worked, eq⟩ := Outcome.bind_eq_ok_iff.1 h
          obtain rfl := Except.ok.inj eq
          exact ⟨rfl, rfl, stray, .inr ⟨spans, worked, rfl⟩⟩
  · rw [if_neg fit] at h
    cases h

/-- **What a move is that passes the checks**: its method is known, has points that can be read, and
they stay on valid lines. -/
theorem plan_eq_ok {generations : Array Generation} {state : State} {method : MethodId}
    {deltas : LineDeltas} {move : Move} (h : plan generations state method deltas = .ok move) :
    ∃ place owner points, state.methods.place? method = some place ∧
      PointsAt generations place owner points ∧
      Planned method place.generation owner state.deltas[method]? deltas points move := by
  rw [plan] at h
  cases placed : state.methods.place? method with
  | none =>
      simp only [placed] at h
      cases h
  | some place =>
      simp only [placed] at h
      obtain ⟨owner, owned, h⟩ := Outcome.bind_eq_ok_iff.1 h
      cases found : owner.metadata.method? place.row with
      | none =>
          simp only [found] at h
          cases h
      | some record =>
          simp only [found] at h
          obtain ⟨points, decoded, h⟩ := Outcome.bind_eq_ok_iff.1 h
          exact ⟨place, owner, points, rfl,
            ⟨generationOf_eq_ok_iff.1 owned, record, found, decoded⟩, planPoints_eq_ok h⟩

/-- Each of the moves is planned for a method that gets no new body. -/
theorem exists_plan_of_mem {generations : Array Generation} {state : State}
    {redefined : Std.HashSet MethodId} {deltas : List (MethodId × LineDeltas)}
    {moves : List Move} (h : planAll generations state redefined deltas = .ok moves) {move : Move}
    (mem : move ∈ moves) :
    redefined.contains move.method = false ∧
      ∃ summed, plan generations state move.method summed = .ok move := by
  obtain ⟨⟨method, summed⟩, entry_mem, planned⟩ := Outcome.exists_of_mem_results h mem
  obtain ⟨place, owner, points, -, -, eq⟩ := plan_eq_ok planned
  have kept := (List.mem_filter.1 entry_mem).2
  rw [eq.method_eq]
  exact ⟨by simpa using kept, summed, planned⟩

/-- No method moves twice. -/
theorem nodup_methods_of_planAll {generations : Array Generation} {state : State}
    {redefined : Std.HashSet MethodId} {deltas : List (MethodId × LineDeltas)}
    {moves : List Move} (h : planAll generations state redefined deltas = .ok moves) :
    (moves.map (·.method)).Nodup := by
  have methods : ((sumByMethod deltas).filter fun entry => !redefined.contains entry.1).map
      (·.1) = moves.map (·.method) := by
    rw [← List.forall₂_eq_eq_eq, List.forall₂_map_left_iff, List.forall₂_map_right_iff]
    refine (Outcome.mapM_eq_ok_iff.1 h).imp fun entry move planned => ?_
    obtain ⟨place, owner, points, -, -, eq⟩ := plan_eq_ok planned
    exact eq.method_eq.symm
  rw [← methods]
  have keys : ((sumByMethod deltas).map (·.1)).Pairwise (·.val < ·.val) :=
    List.pairwise_map.2 (pairwise_sumByMethod deltas)
  have nodup : ((sumByMethod deltas).map (·.1)).Nodup :=
    keys.imp fun lt eq => absurd (eq ▸ lt) (UInt32.lt_irrefl _)
  exact nodup.sublist (List.filter_sublist.map _)

/-! ### Moves that are made -/

/-- What a move makes of the version and the spans of its method. -/
def Effect.entry (effect : Effect) (before : Nat × List Span) : Nat × List Span :=
  match effect with
  | .shift delta => (before.1, before.2.map (·.shift delta))
  | .reshape version spans => (version, spans)

/-- Shifts of a move are those of its own method. -/
theorem filter_shifts (lines : LineIndex) (move : Move) (method : MethodId) :
    (shifts lines move).filter (·.2.1 = method) =
      if move.method = method then shifts lines move else [] := by
  have own : ∀ entry ∈ shifts lines move, entry.2.1 = move.method := by
    intro entry mem
    rw [shifts] at mem
    cases effect : move.effect with
    | shift delta =>
        simp only [effect] at mem
        obtain ⟨document, -, rfl⟩ := List.mem_map.1 mem
        rfl
    | reshape version spans =>
        simp only [effect] at mem
        exact absurd mem List.not_mem_nil
  by_cases same : move.method = method
  · rw [if_pos same, List.filter_eq_self]
    intro entry mem
    rw [own entry mem, same, decide_eq_true rfl]
  · rw [if_neg same, List.filter_eq_nil_iff]
    intro entry mem
    rw [own entry mem]
    simpa using same

/-- Among the shifts of several moves, those of one method are the shifts of its only move. -/
theorem filter_flatMap_shifts (lines : LineIndex) {moves : List Move}
    (nodup : (moves.map (·.method)).Nodup) {move : Move} (mem : move ∈ moves) :
    (moves.flatMap (shifts lines)).filter (·.2.1 = move.method) = shifts lines move := by
  obtain ⟨before, after, rfl⟩ := List.append_of_mem mem
  have others : ∀ other, other ∈ before ∨ other ∈ after → other.method ≠ move.method := by
    rw [List.map_append, List.map_cons, List.nodup_append, List.nodup_cons] at nodup
    obtain ⟨-, ⟨later, -⟩, earlier⟩ := nodup
    rintro other (mem | mem) same
    · exact earlier _ (List.mem_map_of_mem mem) _ (same ▸ List.mem_cons_self) rfl
    · exact later (same ▸ List.mem_map_of_mem mem)
  have none : ∀ rest : List Move, (∀ other ∈ rest, other.method ≠ move.method) →
      (rest.flatMap (shifts lines)).filter (·.2.1 = move.method) = [] := by
    intro rest different
    rw [List.filter_flatMap, List.flatMap_eq_nil_iff]
    intro other other_mem
    rw [filter_shifts, if_neg (different other other_mem)]
  rw [List.flatMap_append, List.flatMap_cons, List.filter_append, List.filter_append,
    none before fun other mem => others other (.inl mem),
    none after fun other mem => others other (.inr mem), filter_shifts, if_pos rfl,
    List.nil_append, List.append_nil]

/-- New spans are those of a move that reshapes its method. -/
theorem method_of_newSpans? {move : Move} {new : MethodSpans} (h : newSpans? move = some new) :
    new.method = move.method ∧ move.effect = .reshape new.version new.spans := by
  rw [newSpans?] at h
  cases effect : move.effect with
  | shift delta =>
      simp only [effect] at h
      cases h
  | reshape version spans =>
      simp only [effect, Option.some.injEq] at h
      obtain rfl := h
      exact ⟨rfl, rfl⟩

/-- The map from methods to spans after moves. -/
def performOn (lines : LineIndex) (content : LineIndex.Content) (moves : List Move) :
    LineIndex.Content :=
  (content.shiftAll (moves.flatMap (shifts lines))).replaceAll (moves.filterMap newSpans?)

/-- **A method that moves once moves as its move says.** -/
theorem performOn_of_mem {lines : LineIndex} {content : LineIndex.Content}
    (h : lines.Represents content) {moves : List Move} (nodup : (moves.map (·.method)).Nodup)
    {move : Move} (mem : move ∈ moves) :
    performOn lines content moves move.method = move.effect.entry (content move.method) := by
  have only : ∀ other ∈ moves, other.method = move.method → other = move := fun other other_mem =>
    List.inj_on_of_nodup_map nodup other_mem mem
  have shifted := filter_flatMap_shifts lines nodup mem
  rw [performOn]
  cases effect : move.effect with
  | shift delta =>
      rw [LineIndex.Content.replaceAll_of_forall_ne]
      · refine LineIndex.Content.shiftAll_of_filter_eq ?_
        rw [shifted, shifts, ← h.documents]
        simp only [effect]
      · intro new new_mem same
        obtain ⟨other, other_mem, found⟩ := List.mem_filterMap.1 new_mem
        obtain ⟨method, reshaped⟩ := method_of_newSpans? found
        obtain rfl := only other other_mem (method.symm.trans same)
        rw [effect] at reshaped
        cases reshaped
  | reshape version spans =>
      have new_mem : (⟨move.method, version, spans⟩ : MethodSpans) ∈
          moves.filterMap newSpans? := by
        refine List.mem_filterMap.2 ⟨move, mem, ?_⟩
        simp only [newSpans?, effect]
      refine LineIndex.Content.replaceAll_of_mem new_mem fun new found same => ?_
      obtain ⟨other, other_mem, found⟩ := List.mem_filterMap.1 found
      obtain ⟨method, reshaped⟩ := method_of_newSpans? found
      obtain rfl := only other other_mem (method.symm.trans same)
      rw [effect] at reshaped
      obtain ⟨rfl, rfl⟩ := Effect.reshape.inj reshaped
      rw [← method]

/-- A method that no move is about stays where it is. -/
theorem performOn_of_forall_ne {lines : LineIndex} {content : LineIndex.Content}
    {moves : List Move} {method : MethodId} (h : ∀ move ∈ moves, move.method ≠ method) :
    performOn lines content moves method = content method := by
  rw [performOn, LineIndex.Content.replaceAll_of_forall_ne,
    LineIndex.Content.shiftAll_of_forall_ne]
  · intro entry mem same
    obtain ⟨move, move_mem, mem⟩ := List.mem_flatMap.1 mem
    have own : entry ∈ (shifts lines move).filter (·.2.1 = method) :=
      List.mem_filter.2 ⟨mem, decide_eq_true same⟩
    rw [filter_shifts, if_neg (h move move_mem)] at own
    exact absurd own List.not_mem_nil
  · intro new mem same
    obtain ⟨move, move_mem, found⟩ := List.mem_filterMap.1 mem
    exact h move move_mem ((method_of_newSpans? found).1.symm.trans same)

/-- Making moves changes what a line index says as it changes the map. -/
theorem represents_performAll {lines : LineIndex} {content : LineIndex.Content}
    (h : lines.Represents content) (moves : List Move) :
    (performAll lines moves).Represents (performOn lines content moves) :=
  (h.shiftAll _).replaceAll _

end Move

end SymbolHistory
