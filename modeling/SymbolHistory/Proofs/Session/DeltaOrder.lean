import SymbolHistory.Proofs.LineIndex.Order
import SymbolHistory.Proofs.Session.DeltaHistory
import SymbolHistory.Proofs.Session.LineAnswers
import SymbolHistory.Proofs.Session.Parallel

/-!
# Deltas in any order, at once or one after the other

Deltas that come along with an update may name methods in any order and several times, for they are
added up by method before anything else happens. If two updates bring deltas and nothing else, one
update that brings them all does the same: where the two are taken in, it is taken in, and then the
methods are at the same lines. That takes more than adding up, for the extents of a method may have
been moved in one case and worked out anew in the other.

## Main definitions

* `LineDeltas.extend` : the deltas of a method after more of them are given.
* `Snapshot.SamePlaces` : the same debug information of all methods.
* `Snapshot.SameLines`, `Snapshot.SameMethods` : at the same lines, or with the same deltas.
* `Update.ofDeltas` : an update that brings deltas and nothing else.
* `Session.MovedOnly` : what is known is what was known before, but for deltas.

## Main results

* `Session.applyInParallel_eq_of_perm` : the order of deltas does not matter.
* `Snapshot.Sound.linesAlike` : answers about lines come from debug information and where it moved.
* `Session.Admits.append` : an update with all deltas is admitted.
* `Session.deltas_in_any_order` : deltas can come in any order, at once or one after the other.
-/

namespace SymbolHistory

/-! ### Order -/

namespace Move

/-- The order of deltas does not matter to their sum. -/
theorem sumOf_eq_of_perm {deltas others : List (MethodId × LineDeltas)} (h : deltas.Perm others)
    (method : MethodId) : sumOf method deltas = sumOf method others := by
  rw [sumOf_eq_sum, sumOf_eq_sum]
  exact ((h.filter _).map _).sum_eq

/-- Sums are by ascending method, so their order does not depend on that of the deltas either. -/
theorem sumByMethod_eq_of_perm {deltas others : List (MethodId × LineDeltas)}
    (h : deltas.Perm others) : sumByMethod deltas = sumByMethod others := by
  have nodup : ∀ deltas : List (MethodId × LineDeltas), (sumByMethod deltas).Nodup :=
    fun deltas => (pairwise_sumByMethod deltas).imp fun lt eq =>
      absurd (eq ▸ lt) (UInt32.lt_irrefl _)
  have same : (sumByMethod deltas).Perm (sumByMethod others) := by
    rw [List.perm_ext_iff_of_nodup (nodup _) (nodup _)]
    rintro ⟨method, sum⟩
    rw [mem_sumByMethod_iff, mem_sumByMethod_iff, (h.map _).mem_iff, sumOf_eq_of_perm h]
  refine same.eq_of_pairwise ?_ (pairwise_sumByMethod _) (pairwise_sumByMethod _)
  exact fun a b _ _ lt lt' => absurd (UInt32.lt_trans lt lt') (UInt32.lt_irrefl _)

end Move

namespace Session

/-- **The order of deltas does not matter.** The outcome is the same, be it a session or an error,
if the same row is ahead of the others. -/
theorem applyInParallel_eq_of_perm (session : Session) (lead : Nat) (metadata : Metadata)
    {deltas others : List (MethodId × LineDeltas)} (h : deltas.Perm others) :
    session.applyInParallel lead ⟨metadata, deltas⟩ =
      session.applyInParallel lead ⟨metadata, others⟩ := by
  have none : deltas = [] ↔ others = [] :=
    ⟨fun eq => (eq ▸ h).nil_eq.symm, fun eq => (eq ▸ h).eq_nil⟩
  simp only [applyInParallel, nextInParallel, Move.planAll, Move.sumByMethod_eq_of_perm h, ne_eq,
    none]

end Session

/-! ### Sums -/

namespace LineDeltas

/-- The deltas of a method after more of them are given. -/
def extend (known : Option LineDeltas) (given : List LineDeltas) : Option LineDeltas :=
  if given = [] then known else some (known.elim given.sum (· + given.sum))

/-- Deltas can be given at once or one after the other. -/
theorem extend_append (known : Option LineDeltas) (given more : List LineDeltas) :
    extend known (given ++ more) = extend (extend known given) more := by
  by_cases none : given = []
  · simp [extend, none]
  · by_cases none' : more = []
    · simp [extend, none']
    · rw [extend, if_neg (List.append_ne_nil_of_left_ne_nil none _), extend, extend, if_neg none,
        if_neg none', List.sum_append]
      cases known with
      | none => rfl
      | some total => rw [Option.elim_some, Option.elim_some, Option.elim_some, add_assoc]

end LineDeltas

/-! ### Answers about methods -/

namespace Snapshot

/-- Two versions have the same debug information of all methods. -/
structure SamePlaces (snapshot other : Snapshot) : Prop where
  /-- Debug information is in the same place. -/
  place? : snapshot.place? = other.place?
  /-- It is owned by the same generation. -/
  owner : ∀ method place, snapshot.place? method = some place →
    snapshot.generation? place.generation = other.generation? place.generation

/-- Two versions have the same debug information of all methods, and the points of each moved to the
same lines. -/
structure SameLines (snapshot other : Snapshot) : Prop extends SamePlaces snapshot other where
  /-- Points end up at the same lines. -/
  moved : ∀ method, moved (snapshot.deltas? method) = moved (other.deltas? method)

/-- Two versions have the same debug information of all methods, and the same deltas. -/
structure SameMethods (snapshot other : Snapshot) : Prop extends SamePlaces snapshot other where
  /-- Methods have the same deltas. -/
  deltas? : snapshot.deltas? = other.deltas?

variable {snapshot other : Snapshot}

/-- Methods with the same deltas have their points at the same lines. -/
theorem SameMethods.sameLines (h : snapshot.SameMethods other) : snapshot.SameLines other :=
  { h with moved := fun method => by rw [h.deltas?] }

namespace SameLines

/-- Points are where they were. -/
theorem points?_eq (h : snapshot.SameLines other) : snapshot.points? = other.points? := by
  funext method
  rw [Snapshot.points?, Snapshot.points?, ← h.place?, ← h.moved]
  cases placed : snapshot.place? method with
  | none => rfl
  | some place =>
      rw [Option.bind_eq_bind, Option.bind_some, Option.bind_eq_bind, Option.bind_some,
        h.owner method place placed]

/-- So are the ranges of the visible ones. -/
theorem visibleRanges?_eq (h : snapshot.SameLines other) :
    snapshot.visibleRanges? = other.visibleRanges? := by
  funext method
  rw [visibleRanges?, visibleRanges?, ← h.place?, ← h.moved]
  cases placed : snapshot.place? method with
  | none => rfl
  | some place =>
      rw [Option.bind_eq_bind, Option.bind_some, Option.bind_eq_bind, Option.bind_some,
        h.owner method place placed]

/-- The line indices of sound versions with methods at the same lines say the same. -/
theorem exists_represents (h : snapshot.SameLines other) (sound : snapshot.Sound)
    (sound' : other.Sound) : ∃ content, snapshot.state.lines.Represents content ∧
      other.state.lines.Represents content ∧
      ∀ method, ((content method).2.map (·.document)).Nodup := by
  obtain ⟨-, content, represents, tracks⟩ := sound
  obtain ⟨-, content', represents', tracks'⟩ := sound'
  refine ⟨content, represents, represents'.congr fun method => ?_, fun method => ?_⟩
  · cases placed : snapshot.place? method with
    | none =>
        exact .inr ⟨tracks'.unknown method (h.place? ▸ placed), tracks.unknown method placed⟩
    | some place =>
        -- Both have the spans of the same ranges.
        obtain ⟨ranges, visible, entry⟩ := tracks.exists_ranges placed
        obtain ⟨ranges', visible', entry'⟩ := tracks'.exists_ranges (h.place? ▸ placed)
        rw [h.visibleRanges?_eq, visible'] at visible
        obtain rfl := Option.some.inj visible
        exact .inl (entry.trans entry'.symm)
  · cases placed : snapshot.place? method with
    | none =>
        rw [tracks.unknown method placed]
        exact List.nodup_nil
    | some place =>
        obtain ⟨ranges, -, entry⟩ := tracks.exists_ranges placed
        rw [entry]
        exact (Span.collected_ofRanges ranges).nodup

end SameLines

/-- **Answers about lines come from debug information and where it moved.** However the extents
came about, they do not show. -/
theorem Sound.linesAlike (sound : snapshot.Sound) (sound' : other.Sound)
    (h : snapshot.SameLines other) : snapshot.LinesAlike other := by
  obtain ⟨content, represents, represents', single⟩ := h.exists_represents sound sound'
  have runs := represents.runs_eq represents' single sound.faithful sound'.faithful
  have methodsOn : snapshot.methodsOn = other.methodsOn := by
    funext document line
    rw [Snapshot.methodsOn, Snapshot.methodsOn, LineIndex.hits, LineIndex.hits, runs]
  have extents : snapshot.state.lines.nextExtents = other.state.lines.nextExtents := by
    funext document cursor
    rw [LineIndex.nextExtents, LineIndex.nextExtents, runs]
  refine ⟨?_, ?_, methodsOn, h.points?_eq, ?_, ?_⟩
  · funext method
    rw [documentsOf, documentsOf, represents.documents, represents'.documents]
  · funext method document
    rw [lines?, lines?, represents.lines?_eq, represents'.lines?_eq]
  · funext document line
    rw [offsetsOn, offsetsOn, methodsOn, h.points?_eq]
  · funext document line
    rw [nextCodeLine?, nextCodeLine?, searchRounds_congr h.points?_eq extents,
      (represents.perm_extentsIn represents' document).length_eq]

/-- Answers about methods come from debug information and deltas. -/
theorem Sound.methodsAlike (sound : snapshot.Sound) (sound' : other.Sound)
    (h : snapshot.SameMethods other) : snapshot.MethodsAlike other :=
  { sound.linesAlike sound' h.sameLines with deltas? := h.deltas? }

end Snapshot

/-! ### Updates that bring deltas only -/

/-- An update that brings deltas and nothing else. -/
def Update.ofDeltas (deltas : List (MethodId × LineDeltas)) : Update :=
  ⟨.empty, deltas⟩

/-- An update without rows is numbered. -/
theorem Update.numbered_ofDeltas (deltas : List (MethodId × LineDeltas)) :
    (ofDeltas deltas).metadata.Numbered :=
  Metadata.numbered_empty

/-- Deltas for a method are picked from one list after the other. -/
theorem Update.deltasFor_append (deltas others : List (MethodId × LineDeltas))
    (method : MethodId) :
    (ofDeltas (deltas ++ others)).deltasFor method =
      (ofDeltas deltas).deltasFor method ++ (ofDeltas others).deltasFor method := by
  rw [deltasFor, ofDeltas, List.filter_append, List.map_append]
  rfl

/-- Their sum is the one that a method moves by. -/
theorem Update.sum_deltasFor_ofDeltas (deltas : List (MethodId × LineDeltas))
    (method : MethodId) : ((ofDeltas deltas).deltasFor method).sum = Move.sumOf method deltas :=
  sum_deltasFor _ method

/-- For a method that is named, more deltas come to a new total. -/
theorem Snapshot.extend_deltas?_of_named {snapshot : Snapshot} {method : MethodId}
    {deltas : List (MethodId × LineDeltas)} (named : method ∈ deltas.map (·.1)) :
    LineDeltas.extend (snapshot.deltas? method) ((Update.ofDeltas deltas).deltasFor method) =
      some (snapshot.totalWith method (Move.sumOf method deltas)) := by
  have given : (Update.ofDeltas deltas).deltasFor method ≠ [] := fun none =>
    Update.deltasFor_eq_nil_iff.1 none named
  rw [LineDeltas.extend, if_neg given, Update.sum_deltasFor_ofDeltas, Snapshot.totalWith]

namespace Session

open Update

variable {session middle new other : Session}
  {deltas first second : List (MethodId × LineDeltas)}

/-- All methods keep their bodies. -/
theorem not_assignsRow_ofDeltas (number : Nat) (row : UInt32) (method : MethodId) :
    ¬(ofDeltas deltas).metadata.AssignsRow number row method := by
  rintro ⟨found, -⟩
  rw [ofDeltas, Metadata.method?, Metadata.empty] at found
  split at found
  · cases found
  · simp at found

/-- No method has a row. -/
theorem methodsOfRows_ofDeltas (deltas : List (MethodId × LineDeltas)) (number : Nat) :
    MethodRegistry.methodsOfRows (ofDeltas deltas).metadata number = [] := by
  rw [MethodRegistry.methodsOfRows]
  split <;> rfl

/-- What is known after deltas is what was known before, but for the deltas of methods. -/
structure MovedOnly (session new : Session) (deltas : List (MethodId × LineDeltas)) : Prop where
  /-- There may be more generations. -/
  version_le : session.version ≤ new.version
  /-- The ones that were there stay. -/
  generation? : ∀ number ≤ session.version,
    new.known.generation? number = session.known.generation? number
  /-- Debug information stays where it is. -/
  place? : ∀ method, new.known.place? method = session.known.place? method
  /-- The points that it says stay the same. -/
  storedPoints? : ∀ method, new.known.storedPoints? method = session.known.storedPoints? method
  /-- Methods move by what is given for them. -/
  deltas? : ∀ method, new.known.deltas? method =
    LineDeltas.extend (session.known.deltas? method) ((ofDeltas deltas).deltasFor method)

/-- **What an update of deltas does.** -/
theorem movedOnly_of_apply (sound : session.Sound)
    (applied : session.apply (ofDeltas deltas) = .ok new) : session.MovedOnly new deltas := by
  obtain ⟨generation, next, rfl⟩ := apply_eq_ok_iff.1 applied
  obtain ⟨moves, spans, taken⟩ := next_eq_ok_iff.1 next
  have places : ∀ method,
      Snapshot.place? ⟨session.generations.push generation, generation.state⟩ method =
        session.known.place? method := fun method =>
    taken.place?_of_kept sound (numbered_ofDeltas deltas) fun row => not_assignsRow_ofDeltas _ _ _
  constructor
  · exact (version_apply applied).symm ▸ Nat.le_succ _
  · intro number le
    have le : number ≤ session.generations.size := le
    change generationAt? (session.generations.push generation) number = _
    rw [generationAt?_push, if_neg (by omega)]
    rfl
  · intro method
    rw [known_push]
    exact places method
  · intro method
    rw [known_push, Snapshot.storedPoints?, Snapshot.storedPoints?,
      record?_push sound _ (places method)]
  · intro method
    rw [known_push]
    cases taken.fate sound (numbered_ofDeltas deltas) method with
    | redefined row assigned => exact absurd assigned (not_assignsRow_ofDeltas _ _ _)
    | moved _ named _ _ total =>
        exact total.trans (Snapshot.extend_deltas?_of_named named).symm
    | untouched _ unnamed _ total =>
        rw [deltasFor_eq_nil_iff.2 unnamed]
        exact total

/-- Two updates of deltas do what one with all deltas does. -/
theorem MovedOnly.append (h : session.MovedOnly middle first) (h' : middle.MovedOnly new second) :
    session.MovedOnly new (first ++ second) where
  version_le := h.version_le.trans h'.version_le
  generation? number le :=
    (h'.generation? number (le.trans h.version_le)).trans (h.generation? number le)
  place? method := (h'.place? method).trans (h.place? method)
  storedPoints? method := (h'.storedPoints? method).trans (h.storedPoints? method)
  deltas? method := by
    rw [h'.deltas?, h.deltas?, deltasFor_append, LineDeltas.extend_append]

/-- The same deltas make the same methods. -/
theorem MovedOnly.sameMethods (h : session.MovedOnly new deltas)
    (h' : session.MovedOnly other deltas) (sound : session.Sound) :
    new.known.SameMethods other.known where
  place? := funext fun method => (h.place? method).trans (h'.place? method).symm
  owner method place placed := by
    have le : place.generation ≤ session.version :=
      Nat.le_of_lt_succ (sound.generation_lt ((h.place? method).symm.trans placed))
    rw [h.generation? _ le, h'.generation? _ le]
  deltas? := funext fun method => (h.deltas? method).trans (h'.deltas? method).symm

/-- The methods that move are those that are named. -/
theorem moving_ofDeltas_iff {method : MethodId} :
    session.Moving (ofDeltas deltas) method ↔ method ∈ deltas.map (·.1) := by
  rw [Moving, methodsOfRows_ofDeltas]
  exact and_iff_left List.not_mem_nil

/-- There are no rows to be mapped. -/
theorem mapsRows_ofDeltas (deltas : List (MethodId × LineDeltas)) :
    (ofDeltas deltas).metadata.MapsRows :=
  ⟨rfl, fun _ mem => absurd mem List.not_mem_nil, List.nodup_nil⟩

/-- Deltas are taken in after the first generation if every method that is named can move. -/
theorem admits_ofDeltas_iff (later : session.version ≠ 0) :
    session.Admits (ofDeltas deltas) ↔
      ∀ method ∈ deltas.map (·.1),
        session.known.Movable method (Move.sumOf method deltas) := by
  constructor
  · intro h method named
    exact h.allMovable method (moving_ofDeltas_iff.2 named)
  · intro movable
    exact ⟨.inl later, List.nodup_nil, fun _ => mapsRows_ofDeltas deltas,
      fun method moving => movable method (moving_ofDeltas_iff.1 moving),
      fun record mem => absurd mem (Array.not_mem_empty _)⟩

/-- **An update with all deltas is admitted** where two updates with some of them are, one after the
other. -/
theorem Admits.append (later : session.version ≠ 0) (h : session.Admits (ofDeltas first))
    (moved : session.MovedOnly middle first) (h' : middle.Admits (ofDeltas second)) :
    session.Admits (ofDeltas (first ++ second)) := by
  have later' : middle.version ≠ 0 :=
    (Nat.lt_of_lt_of_le (Nat.pos_of_ne_zero later) moved.version_le).ne'
  rw [admits_ofDeltas_iff later] at h ⊢
  rw [admits_ofDeltas_iff later'] at h'
  intro method named
  have sum : Move.sumOf method (first ++ second) =
      Move.sumOf method first + Move.sumOf method second := by
    rw [← sum_deltasFor_ofDeltas, deltasFor_append, List.sum_append, sum_deltasFor_ofDeltas,
      sum_deltasFor_ofDeltas]
  by_cases inSecond : method ∈ second.map (·.1)
  · obtain ⟨points, stored, fit', valid⟩ := h' method inSecond
    rw [moved.storedPoints?] at stored
    -- The method ends up where it does after the one update and the other.
    have total : session.known.totalWith method (Move.sumOf method (first ++ second)) =
        middle.known.totalWith method (Move.sumOf method second) := by
      rw [← Option.some.injEq, ← Snapshot.extend_deltas?_of_named named, deltasFor_append,
        LineDeltas.extend_append, ← moved.deltas?, Snapshot.extend_deltas?_of_named inSecond]
    refine ⟨points, stored, ?_, total ▸ valid⟩
    rw [sum]
    refine LineDeltas.Fits.add ?_ fit'
    by_cases inFirst : method ∈ first.map (·.1)
    · obtain ⟨same, stored', fit, -⟩ := h method inFirst
      obtain rfl := Option.some.inj (stored'.symm.trans stored)
      exact fit
    · rw [Move.sumOf_of_notMem inFirst]
      exact .inl rfl
  · have inFirst : method ∈ first.map (·.1) := by
      rw [List.map_append, List.mem_append] at named
      exact named.resolve_right inSecond
    rw [sum, Move.sumOf_of_notMem inSecond, add_zero]
    exact h method inFirst

/-- What is taken in is admitted. -/
theorem admits_of_apply {updates : List Update} {update : Update} (sound : session.Sound)
    (documented : session.Documented updates) (numbered : update.metadata.Numbered)
    (applied : session.apply update = .ok new) : session.Admits update := by
  rcases applyInParallel_cases 0 sound documented numbered with ⟨admits, -⟩ | ⟨e, -, failed⟩
  · exact admits
  · cases failed.symm.trans applied

/-- What a session knows is its current version, if it has one. -/
theorem current?_eq_known (later : session.version ≠ 0) : session.current? = some session.known :=
  at?_version later

/-- **Deltas can come in any order, and at once or one after the other**, in every session that has
a generation and whatever happened to it, as long as the rows of updates are numbered. Their order
within an update does not matter to the outcome, be it a session or an error, whatever row is ahead
of the others. If different rows are ahead, the outcome is still the same, unless rows fail: then
the error is that of one of them each time. And where two updates that bring deltas only are taken
in one after the other, one with all deltas is taken in, and the answers about methods and lines are
the same. -/
theorem deltas_in_any_order {events : List Event}
    (numbered : ∀ update, .offer update ∈ events → update.metadata.Numbered)
    (later : 1 ≤ (ofEvents events).version) :
    (∀ metadata deltas others, deltas.Perm others →
      (∀ lead, (ofEvents events).applyInParallel lead ⟨metadata, deltas⟩ =
        (ofEvents events).applyInParallel lead ⟨metadata, others⟩) ∧
      ∀ lead lead', (ofEvents events).applyInParallel lead ⟨metadata, deltas⟩ =
          (ofEvents events).applyInParallel lead' ⟨metadata, others⟩ ∨
        ∃ e e', (ofEvents events).applyInParallel lead ⟨metadata, deltas⟩ = .error e ∧
          (ofEvents events).applyInParallel lead' ⟨metadata, others⟩ = .error e' ∧
          (ofEvents events).RowFails metadata e ∧ (ofEvents events).RowFails metadata e') ∧
    ∀ first second middle two, (ofEvents events).apply ⟨.empty, first⟩ = .ok middle →
      middle.apply ⟨.empty, second⟩ = .ok two →
      ∃ once, (ofEvents events).apply ⟨.empty, first ++ second⟩ = .ok once ∧
        ∃ snapshot other, two.current? = some snapshot ∧ once.current? = some other ∧
          snapshot.MethodsAlike other := by
  have later : (ofEvents events).version ≠ 0 := Nat.one_le_iff_ne_zero.1 later
  have sound := sound_ofEvents numbered
  have documented := documented_ofEvents numbered
  refine ⟨fun metadata deltas others perm => ?_, ?_⟩
  · have same := fun lead => applyInParallel_eq_of_perm (ofEvents events) lead metadata perm
    refine ⟨same, fun lead lead' => ?_⟩
    rw [same lead]
    exact applyInParallel_eq_or _ _ lead lead'
  intro first second middle two applied applied'
  have sound' := sound.apply Metadata.numbered_empty applied
  have documented' := documented.apply Metadata.numbered_empty applied
  have moved := movedOnly_of_apply sound applied
  have moved' := movedOnly_of_apply sound' applied'
  have admits := Admits.append later
    (admits_of_apply sound documented (numbered_ofDeltas first) applied) moved
    (admits_of_apply sound' documented' (numbered_ofDeltas second) applied')
  obtain ⟨once, applied''⟩ :=
    admits.exists_apply sound documented (numbered_ofDeltas (first ++ second))
  have moved'' := movedOnly_of_apply sound applied''
  have two_sound := sound'.apply Metadata.numbered_empty applied'
  have once_sound := sound.apply Metadata.numbered_empty applied''
  have two_later : two.version ≠ 0 := version_apply applied' ▸ Nat.succ_ne_zero _
  have once_later : once.version ≠ 0 := version_apply applied'' ▸ Nat.succ_ne_zero _
  refine ⟨once, applied'', two.known, once.known, current?_eq_known two_later,
    current?_eq_known once_later, two_sound.state.methodsAlike once_sound.state ?_⟩
  exact (moved.append moved').sameMethods moved'' sound

/-- A method that moves down by three lines, and then its only point up by one. -/
theorem deltas_in_any_order_oneMethod :
    (∀ update, .offer update ∈ [Event.offer oneMethod] → update.metadata.Numbered) ∧
      1 ≤ (ofEvents [.offer oneMethod]).version ∧
      ∃ once, (ofEvents [.offer oneMethod]).apply
        ⟨.empty, [(⟨1⟩, .uniform 3), (⟨1⟩, ⟨0, [-1]⟩)]⟩ = .ok once := by
  have numbered := numbered_singleton numbered_oneMethod
  obtain ⟨version, -, still, stored⟩ := known_oneMethod
  have later : 1 ≤ (ofEvents [.offer oneMethod]).version := version.ge
  have sound := sound_ofEvents numbered
  have documented := documented_ofEvents numbered
  obtain ⟨middle, applied⟩ := admits_moveDown.exists_apply sound documented numbered_moveDown
  have moved : (ofEvents [.offer oneMethod]).MovedOnly middle [(⟨1⟩, .uniform 3)] :=
    movedOnly_of_apply sound applied
  have middle_later : middle.version ≠ 0 := version_apply applied ▸ Nat.succ_ne_zero _
  have admits : middle.Admits (ofDeltas [(⟨1⟩, ⟨0, [-1]⟩)]) := by
    rw [admits_ofDeltas_iff middle_later]
    intro method named
    obtain rfl := List.mem_singleton.1 named
    refine ⟨_, (moved.storedPoints? ⟨1⟩).trans stored, .inr rfl, ?_⟩
    rw [Snapshot.totalWith, moved.deltas?, still]
    decide +kernel
  obtain ⟨two, applied'⟩ := admits.exists_apply (sound.apply numbered_moveDown applied)
    (documented.apply numbered_moveDown applied) (numbered_ofDeltas _)
  obtain ⟨once, applied'', -⟩ :=
    (deltas_in_any_order numbered later).2 [(⟨1⟩, .uniform 3)] [(⟨1⟩, ⟨0, [-1]⟩)] middle two applied
      applied'
  exact ⟨numbered, later, once, applied''⟩

end Session

end SymbolHistory
