import SymbolHistory.Proofs.LineTable.RoundTrip
import SymbolHistory.Proofs.Session.DeltaOrder
import SymbolHistory.Proofs.Session.Points

/-!
# Deltas that move nothing

Which lines are valid is checked in two places: where a line table is read, and where a method
moves. The two differ in one line. A visible point that is read may start on line 0, and a method
with such a point cannot be moved by deltas that keep it there, not even by deltas that move
nothing. All other methods can, and nothing is seen to change.

## Main definitions

* `SequencePoint.startsOnZero` : the points that are read and cannot stay.

## Main results

* `LineDeltas.strayLine?_of_still` : deltas that move nothing find line 0 and no other line.
* `Snapshot.Sound.exists_stray` : and only in methods that have not moved yet.
* `Session.still_cases` : how an update fares that moves nothing.
* `Session.still_update_refused_or_unseen` : that is so in every session.
* `Session.exists_still_update_refused` : a method that cannot stay where it is.
-/

namespace SymbolHistory

/-- Whether a point is visible and starts on line 0. -/
def SequencePoint.startsOnZero (point : SequencePoint) : Bool :=
  point.range.any (·.startLine == 0)

/-! ### Points that stay -/

theorem shiftLine_zero (line : UInt32) : shiftLine line 0 = line := by
  have lt := line.toNat_lt
  rw [← UInt32.toNat_inj, toNat_shiftLine, Int32.toInt_zero]
  omega

theorem SequencePoint.shift_zero (point : SequencePoint) : point.shift 0 = point := by
  rcases point with ⟨codeOffset, document, range⟩
  cases range with
  | none => rfl
  | some range =>
      rw [shift, Option.map_some, SourceRange.shift, shiftLine_zero, shiftLine_zero]

namespace LineDeltas

variable {deltas others : LineDeltas} {points : List SequencePoint}

/-- What deltas do depends on what they do to single points. -/
theorem apply_congr (h : ∀ index, deltas.deltaOf index = others.deltaOf index) :
    deltas.apply = others.apply := by
  funext points
  simp only [apply, h]

theorem strayLine?_congr (h : ∀ index, deltas.deltaOf index = others.deltaOf index) :
    deltas.strayLine? points = others.strayLine? points := by
  simp only [strayLine?, h]

/-- Zeros move nothing. -/
theorem deltaOf_replicate_zero (count index : Nat) :
    deltaOf ⟨0, List.replicate count 0⟩ index = 0 := by
  rw [deltaOf, List.getElem?_replicate]
  split <;> rfl

/-- Deltas that move nothing add nothing. -/
theorem deltaOf_add_of_still (still : ∀ index, others.deltaOf index = 0) (index : Nat) :
    (deltas + others).deltaOf index = deltas.deltaOf index := by
  rw [deltaOf_add, still, Int32.add_zero]

/-- Deltas that move nothing leave points alone. -/
theorem apply_of_still (still : ∀ index, deltas.deltaOf index = 0) :
    deltas.apply points = points := by
  apply List.ext_getElem?
  intro index
  rw [getElem?_apply, still]
  simp [SequencePoint.shift_zero]

/-- A well-formed range strays only with its first line, and there only on line 0. -/
theorem find?_movedLines_zero {point : SequencePoint}
    (formed : ∀ range ∈ point.range, range.WellFormed) :
    (movedLines 0 point).find? (fun line => ¬LineTable.VisibleLine line) =
      if point.startsOnZero then some 0 else none := by
  rcases point with ⟨codeOffset, document, _ | range⟩
  · rfl
  have formed := formed range rfl
  have order := UInt32.le_iff_toNat_le.1 formed.startLine_le_endLine
  have last_lt := formed.endLine_lt
  have first_ne := UInt32.toNat_inj.not.2 formed.startLine_ne
  have last_ne := UInt32.toNat_inj.not.2 formed.endLine_ne
  have starts : SequencePoint.startsOnZero ⟨codeOffset, document, some range⟩ =
      (range.startLine == 0) := rfl
  rw [starts, movedLines, Int32.toInt_zero]
  simp only [Int.add_zero]
  by_cases zero : range.startLine = 0
  · rw [zero]
    rfl
  · have positive : range.startLine.toNat ≠ 0 := UInt32.toNat_inj.not.2 zero
    have first : LineTable.VisibleLine range.startLine.toNat :=
      ⟨by omega, by omega, by omega⟩
    have last : LineTable.VisibleLine range.endLine.toNat :=
      ⟨by omega, by omega, by omega⟩
    simp [first, last, zero]

/-- **Deltas that move nothing find line 0 and no other line** in points that were read. -/
theorem strayLine?_of_still (still : ∀ index, deltas.deltaOf index = 0)
    (formed : ∀ point ∈ points, ∀ range ∈ point.range, range.WellFormed) :
    deltas.strayLine? points = if points.any (·.startsOnZero) then some 0 else none := by
  have lines : (points.mapIdx fun index point => movedLines (deltas.deltaOf index) point) =
      points.map (movedLines 0) := by
    simp only [still]
    exact List.ext_getElem? fun index => by rw [List.getElem?_mapIdx, List.getElem?_map]
  rw [strayLine?, lines]
  clear lines
  induction points with
  | nil => rfl
  | cons point points ih =>
      obtain ⟨first, others⟩ := List.forall_mem_cons.1 formed
      rw [List.map_cons, List.flatten_cons, List.find?_append, find?_movedLines_zero first,
        ih others, List.any_cons]
      cases point.startsOnZero <;> simp

end LineDeltas

/-- The points of a method are read from its line table, so their ranges are well-formed. -/
theorem MethodDebug.wellFormed_of_points {record : MethodDebug} {points : List SequencePoint}
    (h : record.points = .ok points) :
    ∀ point ∈ points, ∀ range ∈ point.range, range.WellFormed := by
  rw [MethodDebug.points] at h
  split at h
  · cases h
    exact fun _ mem => absurd mem List.not_mem_nil
  · obtain ⟨table, decoded, rfl⟩ := Outcome.map_eq_ok_iff.1 h
    exact (LineTable.decode_eq_ok_iff.1 decoded).1.ranges

/-! ### Methods that stay -/

/-- The only deltas that are given for a method are their sum. -/
theorem Move.sumOf_singleton (method : MethodId) (deltas : LineDeltas) :
    sumOf method [(method, deltas)] = deltas := by
  rw [sumOf_eq_sum]
  simp

namespace Snapshot

/-- A method has not moved and has a visible point that starts on line 0. -/
def OnLineZero (snapshot : Snapshot) (method : MethodId) : Prop :=
  snapshot.deltas? method = none ∧
    (snapshot.storedPoints? method).any fun points => points.any (·.startsOnZero)

instance (snapshot : Snapshot) (method : MethodId) : Decidable (snapshot.OnLineZero method) :=
  inferInstanceAs (Decidable (_ ∧ _))

variable {snapshot : Snapshot}

/-- Points stay where they are if all that is given on top moves nothing. -/
theorem moved_extend_of_still (known : Option LineDeltas) {given : List LineDeltas}
    (still : ∀ deltas ∈ given, ∀ index, deltas.deltaOf index = 0) :
    moved (LineDeltas.extend known given) = moved known := by
  have sum : ∀ index, given.sum.deltaOf index = 0 := by
    induction given with
    | nil => exact fun _ => rfl
    | cons deltas given ih =>
        intro index
        obtain ⟨first, others⟩ := List.forall_mem_cons.1 still
        rw [List.sum_cons, LineDeltas.deltaOf_add_of_still (ih others), first]
  rw [LineDeltas.extend]
  split
  · rfl
  · funext points
    cases known with
    | none => exact LineDeltas.apply_of_still sum
    | some total =>
        exact congrFun (LineDeltas.apply_congr (LineDeltas.deltaOf_add_of_still sum)) points

/-- **Which methods cannot stay where they are**: those that have not moved and have a visible point
that starts on line 0. Once a method has moved, all of its lines are valid. -/
theorem Sound.exists_stray (sound : snapshot.Sound) {method : MethodId} {place : MethodPlace}
    (placed : snapshot.place? method = some place) :
    ∃ points, snapshot.storedPoints? method = some points ∧
      ∀ deltas : LineDeltas, (∀ index, deltas.deltaOf index = 0) →
        (snapshot.totalWith method deltas).strayLine? points =
          if snapshot.OnLineZero method then some 0 else none := by
  obtain ⟨-, content, -, tracks⟩ := sound
  obtain ⟨owner, points, lines⟩ := tracks.known method place placed
  have stored := storedPoints?_of_pointsAt placed lines.at_place
  refine ⟨points, stored, fun deltas still => ?_⟩
  obtain ⟨record, -, decoded⟩ := lines.at_place.decoded
  cases known : snapshot.deltas? method with
  | none =>
      rw [totalWith, known, Option.elim_none,
        LineDeltas.strayLine?_of_still still (MethodDebug.wellFormed_of_points decoded)]
      simp [OnLineZero, known, stored]
  | some total =>
      rw [totalWith, known, Option.elim_some,
        LineDeltas.strayLine?_congr (LineDeltas.deltaOf_add_of_still still),
        lines.valid total known, if_neg]
      rintro ⟨unmoved, -⟩
      cases known.symm.trans unmoved

end Snapshot

namespace Session

open Update

variable {session new : Session} {deltas : List (MethodId × LineDeltas)}

/-- Deltas that are refused after the first generation have a fault for a method that is named. -/
theorem Refuses.exists_fault_ofDeltas {e : Error} (h : session.Refuses (ofDeltas deltas) e)
    (later : session.version ≠ 0) : ∃ method ∈ deltas.map (·.1),
      session.known.MoveFault method (Move.sumOf method deltas) e := by
  cases h with
  | mayMove fault => exact absurd (.inl later) fault
  | namesDiffer _ fault =>
      exact absurd fault (List.nodup_iff_forall_not_duplicate.1 List.nodup_nil _)
  | rowsMapped _ _ fault =>
      exact absurd ((MethodRegistry.coversRows_iff (numbered_ofDeltas deltas) _).2
        fun _ => mapsRows_ofDeltas deltas) fault.not_coversRows
  | allMovable _ _ _ moving fault => exact ⟨_, moving_ofDeltas_iff.1 moving, fault⟩
  | allResolve _ _ _ _ mem => exact absurd mem (Array.not_mem_empty _)

/-- After deltas that move nothing all methods are at the same lines. -/
theorem MovedOnly.sameLines_of_still (h : session.MovedOnly new deltas) (sound : session.Sound)
    (still : ∀ entry ∈ deltas, ∀ index, entry.2.deltaOf index = 0) :
    session.known.SameLines new.known where
  place? := funext fun method => (h.place? method).symm
  owner method place placed := by
    have le : place.generation ≤ session.version :=
      Nat.le_of_lt_succ (sound.generation_lt placed)
    rw [h.generation? _ le]
  moved method := by
    rw [h.deltas?, Snapshot.moved_extend_of_still]
    intro given mem
    rw [deltasFor, ofDeltas] at mem
    obtain ⟨entry, entry_mem, rfl⟩ := List.mem_map.1 mem
    exact still entry (List.mem_filter.1 entry_mem).1

/-- Deltas that can move the method they name are taken in after the first generation. -/
theorem exists_apply_ofDeltas {updates : List Update} (sound : session.Sound)
    (documented : session.Documented updates) (later : session.version ≠ 0) {method : MethodId}
    {single : LineDeltas} (movable : session.known.Movable method single) :
    ∃ new, session.apply (ofDeltas [(method, single)]) = .ok new := by
  refine Admits.exists_apply ?_ sound documented (numbered_ofDeltas _)
  refine (admits_ofDeltas_iff later).2 fun other named => ?_
  obtain rfl := List.mem_singleton.1 named
  rwa [Move.sumOf_singleton]

/-- Deltas that move the method they name to a line that is not valid are refused with that line. -/
theorem apply_eq_deltaRange {updates : List Update} (sound : session.Sound)
    (documented : session.Documented updates) (later : session.version ≠ 0) {method : MethodId}
    {single : LineDeltas} {points : List SequencePoint} {line : Int}
    (stored : session.known.storedPoints? method = some points)
    (fit : single.single = [] ∨ single.single.length = points.length)
    (stray : (session.known.totalWith method single).strayLine? points = some line) :
    session.apply (ofDeltas [(method, single)]) = .error (.deltaRange method line) := by
  rcases applyInParallel_cases 0 sound documented (numbered_ofDeltas [(method, single)]) with
    ⟨admits, -⟩ | ⟨e, refuses, failed⟩
  · obtain ⟨same, stored', -, valid⟩ :=
      (admits_ofDeltas_iff later).1 admits method List.mem_cons_self
    obtain rfl := Option.some.inj (stored'.symm.trans stored)
    rw [Move.sumOf_singleton, stray] at valid
    cases valid
  · obtain ⟨other, named, fault⟩ := refuses.exists_fault_ofDeltas later
    obtain rfl := List.mem_singleton.1 named
    rw [Move.sumOf_singleton] at fault
    rw [apply, failed]
    cases fault with
    | unknown unplaced =>
        cases (Snapshot.storedPoints?_of_unplaced unplaced).symm.trans stored
    | count stored' some ne =>
        obtain rfl := Option.some.inj (stored'.symm.trans stored)
        exact absurd fit (not_or.2 ⟨some, ne⟩)
    | range stored' _ line =>
        obtain rfl := Option.some.inj (stored'.symm.trans stored)
        obtain rfl := Option.some.inj (line.symm.trans stray)
        rfl

/-- **How an update fares that moves nothing**, if it names a method that is known. It is refused if
the method has a point on line 0 and has not moved. If not, it is taken in, and no question about
lines is answered differently afterwards. -/
theorem still_cases {updates : List Update} (sound : session.Sound)
    (documented : session.Documented updates) (later : session.version ≠ 0) {method : MethodId}
    {place : MethodPlace} (placed : session.known.place? method = some place) :
    ∃ points, session.known.storedPoints? method = some points ∧
      ∀ single, single = [] ∨ single = List.replicate points.length 0 →
        (session.known.OnLineZero method →
          session.apply (ofDeltas [(method, ⟨0, single⟩)]) = .error (.deltaRange method 0)) ∧
        (¬session.known.OnLineZero method →
          ∃ new, session.apply (ofDeltas [(method, ⟨0, single⟩)]) = .ok new ∧
            session.known.LinesAlike new.known) := by
  have known_sound : session.known.Sound := sound.state
  obtain ⟨points, stored, stray⟩ := known_sound.exists_stray placed
  refine ⟨points, stored, fun single zeros => ?_⟩
  have still : ∀ index, LineDeltas.deltaOf ⟨0, single⟩ index = 0 := by
    rcases zeros with rfl | rfl
    · exact fun _ => rfl
    · exact LineDeltas.deltaOf_replicate_zero _
  have fit : single = [] ∨ single.length = points.length :=
    zeros.imp_right fun eq => by rw [eq, List.length_replicate]
  have stray := stray ⟨0, single⟩ still
  constructor
  · intro onZero
    rw [if_pos onZero] at stray
    exact apply_eq_deltaRange sound documented later stored fit stray
  · intro valid
    rw [if_neg valid] at stray
    obtain ⟨new, applied⟩ :=
      exists_apply_ofDeltas sound documented later ⟨points, stored, fit, stray⟩
    have new_sound := sound.apply (numbered_ofDeltas _) applied
    have moved := movedOnly_of_apply sound applied
    exact ⟨new, applied, known_sound.linesAlike new_sound.state
      (moved.sameLines_of_still sound (List.forall_mem_singleton.2 still))⟩

/-- **An update that moves nothing is refused or goes unseen**, in every session that has a
generation and whatever happened to it, as long as the rows of updates are numbered. Without deltas,
the lines of points that are read are valid but for line 0, where a visible point may start. So an
update whose deltas for a method are all zero is refused if the method has not moved and has such a
point. Every other method can stay where it is, and then all questions about lines have the answers
that they had. -/
theorem still_update_refused_or_unseen {events : List Event}
    (numbered : ∀ update, .offer update ∈ events → update.metadata.Numbered)
    (later : 1 ≤ (ofEvents events).version) :
    (∀ bytes column table, LineTable.decode bytes column = .ok table →
      (0 : LineDeltas).strayLine? table.points =
        if table.points.any (·.startsOnZero) then some 0 else none) ∧
    ∃ snapshot, (ofEvents events).current? = some snapshot ∧
      ∀ method place, snapshot.place? method = some place →
        ∃ points, snapshot.storedPoints? method = some points ∧
          ∀ single, single = [] ∨ single = List.replicate points.length 0 →
            (snapshot.OnLineZero method →
              (ofEvents events).apply ⟨.empty, [(method, ⟨0, single⟩)]⟩ =
                .error (.deltaRange method 0)) ∧
            (¬snapshot.OnLineZero method →
              ∃ new other, (ofEvents events).apply ⟨.empty, [(method, ⟨0, single⟩)]⟩ = .ok new ∧
                new.current? = some other ∧ snapshot.LinesAlike other) := by
  have later : (ofEvents events).version ≠ 0 := Nat.one_le_iff_ne_zero.1 later
  have sound := sound_ofEvents numbered
  have documented := documented_ofEvents numbered
  refine ⟨fun bytes column table decoded => ?_, (ofEvents events).known,
    current?_eq_known later, fun method place placed => ?_⟩
  · exact LineDeltas.strayLine?_of_still (fun _ => rfl)
      (LineTable.decode_eq_ok_iff.1 decoded).1.ranges
  · obtain ⟨points, stored, cases⟩ := still_cases sound documented later placed
    refine ⟨points, stored, fun single zeros => ⟨(cases single zeros).1, fun valid => ?_⟩⟩
    obtain ⟨new, applied, alike⟩ := (cases single zeros).2 valid
    have new_later : new.version ≠ 0 := version_apply applied ▸ Nat.succ_ne_zero _
    exact ⟨new, new.known, applied, current?_eq_known new_later, alike⟩

/-- A program with one method, which can stay where it is. -/
theorem still_update_refused_or_unseen_lineTen :
    (∀ update, .offer update ∈ [Event.offer (ofLineTable [0, 0, 0, 4, 10, 1])] →
        update.metadata.Numbered) ∧
      1 ≤ (ofEvents [.offer (ofLineTable [0, 0, 0, 4, 10, 1])]).version ∧
      ∃ snapshot new other,
        (ofEvents [.offer (ofLineTable [0, 0, 0, 4, 10, 1])]).current? = some snapshot ∧
        (ofEvents [.offer (ofLineTable [0, 0, 0, 4, 10, 1])]).apply
          ⟨.empty, [(⟨1⟩, ⟨0, [0]⟩)]⟩ = .ok new ∧
        new.current? = some other ∧ snapshot.LinesAlike other := by
  have numbered := numbered_singleton (numbered_ofLineTable [0, 0, 0, 4, 10, 1])
  obtain ⟨version, placed, -, stored⟩ := known_ofLineTable points_oneMethod (by decide)
  have current := current?_eq_known (version ▸ Nat.one_ne_zero)
  obtain ⟨-, snapshot, current', cases⟩ := still_update_refused_or_unseen numbered version.ge
  obtain rfl := Option.some.inj (current'.symm.trans current)
  obtain ⟨points, stored', fares⟩ := cases ⟨1⟩ _ placed
  obtain rfl := Option.some.inj (stored'.symm.trans stored)
  have valid : ¬(ofEvents [.offer (ofLineTable [0, 0, 0, 4, 10, 1])]).known.OnLineZero ⟨1⟩ := by
    rw [Snapshot.OnLineZero, stored]
    rintro ⟨-, onZero⟩
    cases onZero
  obtain ⟨new, other, applied, current'', alike⟩ := (fares [0] (.inr rfl)).2 valid
  exact ⟨numbered, version.ge, _, new, other, current, applied, current'', alike⟩

/-- **A method that cannot stay where it is**, as its point starts on line 0. -/
theorem exists_still_update_refused :
    (∃ table, LineTable.decode [0, 0, 0, 4, 0, 1] (some 1) = .ok table ∧
      (0 : LineDeltas).strayLine? table.points = some 0) ∧
    (∀ update, .offer update ∈ [Event.offer (ofLineTable [0, 0, 0, 4, 0, 1])] →
      update.metadata.Numbered) ∧
    1 ≤ (ofEvents [.offer (ofLineTable [0, 0, 0, 4, 0, 1])]).version ∧
    ∃ snapshot place,
      (ofEvents [.offer (ofLineTable [0, 0, 0, 4, 0, 1])]).current? = some snapshot ∧
      snapshot.place? ⟨1⟩ = some place ∧
      (ofEvents [.offer (ofLineTable [0, 0, 0, 4, 0, 1])]).apply ⟨.empty, [(⟨1⟩, ⟨0, []⟩)]⟩ =
        .error (.deltaRange ⟨1⟩ 0) := by
  have numbered := numbered_singleton (numbered_ofLineTable [0, 0, 0, 4, 0, 1])
  have read : (MethodDebug.ofLineTable 1 1 (some [0, 0, 0, 4, 0, 1])).points =
      .ok [⟨0, 1, some ⟨0, 1, 0, 5⟩⟩] := by decide +kernel
  obtain ⟨version, placed, unmoved, stored⟩ := known_ofLineTable read (by decide)
  obtain ⟨table, decoded, points⟩ : ∃ table,
      LineTable.decode [0, 0, 0, 4, 0, 1] (some 1) = .ok table ∧
        table.points = [⟨0, 1, some ⟨0, 1, 0, 5⟩⟩] := Outcome.map_eq_ok_iff.1 read
  have later := version ▸ Nat.one_ne_zero
  obtain ⟨same, -, fares⟩ :=
    still_cases (sound_ofEvents numbered) (documented_ofEvents numbered) later placed
  have onZero : (ofEvents [.offer (ofLineTable [0, 0, 0, 4, 0, 1])]).known.OnLineZero ⟨1⟩ := by
    refine ⟨unmoved, ?_⟩
    rw [stored]
    rfl
  refine ⟨⟨table, decoded, ?_⟩, numbered, version.ge, _, _, current?_eq_known later, placed,
    (fares [] (.inl rfl)).1 onZero⟩
  rw [points]
  decide +kernel

end Session

end SymbolHistory
