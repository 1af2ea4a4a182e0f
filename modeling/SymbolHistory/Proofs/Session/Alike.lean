import SymbolHistory.Proofs.LineIndex.Copies
import SymbolHistory.Proofs.Session.Conditions
import SymbolHistory.Proofs.Session.Documents

/-!
# The same but for what is remembered

Questions leave runs behind that later answers are read from, and an update takes along what the
version before it remembers. Two sessions that differ in nothing else cannot be told apart: they
give the same answers, take in the same updates, and do not differ in anything else afterwards.

## Main definitions

* `State.Alike`, `Generation.Alike`, `GenerationsAlike`, `Snapshot.Alike` : the same but for the
  runs that are remembered.
* `Snapshot.LinesAlike`, `Snapshot.MethodsAlike`, `Snapshot.AnswersAlike` : questions are answered
  the same, those about lines, those about methods as well, and all of them.

## Main results

* `Snapshot.Alike.answersAlike` : versions that are alike answer alike.
* `Session.Taken.alike` : sessions that are alike take in the same updates, and stay alike.
-/

namespace SymbolHistory

/-! ### Being alike -/

/-- What is known is the same but for the runs that are remembered, and these are right. -/
structure State.Alike (state other : State) : Prop where
  /-- The documents are the same. -/
  documents : state.documents = other.documents
  /-- The methods are the same. -/
  methods : state.methods = other.methods
  /-- The deltas are the same. -/
  deltas : state.deltas = other.deltas
  /-- The lines are the same. -/
  lines : LineIndex.SameContent state.lines other.lines
  /-- The runs that the first one remembers are right. -/
  faithful : state.lines.Faithful
  /-- So are those of the other one. -/
  other_faithful : other.lines.Faithful

/-- Generations are the same but for the runs that they remember. -/
structure Generation.Alike (generation other : Generation) : Prop where
  /-- The numbers are the same. -/
  number : generation.number = other.number
  /-- What they brought is the same. -/
  metadata : generation.metadata = other.metadata
  /-- The number of documents before them is the same. -/
  documentsBefore : generation.documentsBefore = other.documentsBefore
  /-- Their rows are the same documents. -/
  documentIds : generation.documentIds = other.documentIds
  /-- Their rows belong to the same methods. -/
  methodIds : generation.methodIds = other.methodIds
  /-- What is known with them is alike. -/
  state : generation.state.Alike other.state

/-- There are as many generations, and those with the same number are alike. -/
structure GenerationsAlike (generations others : Array Generation) : Prop where
  /-- There are as many. -/
  size : generations.size = others.size
  /-- Those with the same number are alike. -/
  at_number : ∀ number,
    Option.Rel Generation.Alike (generationAt? generations number) (generationAt? others number)

/-- Versions are the same but for the runs that they remember. -/
structure Snapshot.Alike (snapshot other : Snapshot) : Prop where
  /-- Their generations are. -/
  generations : GenerationsAlike snapshot.generations other.generations
  /-- What they know is. -/
  state : snapshot.state.Alike other.state

/-- Rows belong to the same documents in generations that are alike. -/
theorem Generation.Alike.documentId?_eq {generation other : Generation}
    (h : generation.Alike other) : generation.documentId? = other.documentId? := by
  funext row
  rw [documentId?, documentId?, h.documentIds]

/-- What is known at first is like itself: nothing is remembered yet. -/
theorem State.alike_empty : State.empty.Alike .empty :=
  ⟨rfl, rfl, rfl, .refl _, LineIndex.faithful_empty, LineIndex.faithful_empty⟩

namespace GenerationsAlike

variable {generations others : Array Generation}

/-- What has a number in one list has it in the other. -/
theorem exists_alike (h : GenerationsAlike generations others) {number : Nat}
    {generation : Generation} (found : generationAt? generations number = some generation) :
    ∃ other, generationAt? others number = some other ∧ generation.Alike other := by
  have alike := h.at_number number
  rw [found] at alike
  cases alike_eq : generationAt? others number with
  | none =>
      rw [alike_eq] at alike
      cases alike
  | some other =>
      rw [alike_eq] at alike
      cases alike with
      | some alike => exact ⟨other, rfl, alike⟩

/-- What no generation of one list has, none of the other has. -/
theorem eq_none (h : GenerationsAlike generations others) {number : Nat}
    (absent : generationAt? generations number = none) : generationAt? others number = none := by
  have alike := h.at_number number
  rw [absent] at alike
  cases eq : generationAt? others number with
  | none => rfl
  | some other =>
      rw [eq] at alike
      cases alike

/-- So it is the other way round. -/
theorem exists_alike_of_other (h : GenerationsAlike generations others) {number : Nat}
    {other : Generation} (found : generationAt? others number = some other) :
    ∃ generation, generationAt? generations number = some generation ∧
      generation.Alike other := by
  cases known : generationAt? generations number with
  | none => cases (h.eq_none known).symm.trans found
  | some generation =>
      obtain ⟨same, found', alike⟩ := h.exists_alike known
      obtain rfl := Option.some.inj (found'.symm.trans found)
      exact ⟨generation, rfl, alike⟩

/-- The history that can be looked up is the same. -/
theorem historyOf_eq (h : GenerationsAlike generations others) :
    historyOf generations = historyOf others := by
  funext number
  rw [historyOf, historyOf]
  cases found : generationAt? generations number with
  | none => rw [h.eq_none found]
  | some generation =>
      obtain ⟨other, found', alike⟩ := h.exists_alike found
      rw [found', Option.map_some, Option.map_some, alike.metadata]

/-- Generations that are alike may be added to both lists. -/
theorem push (h : GenerationsAlike generations others) {generation other : Generation}
    (alike : generation.Alike other) :
    GenerationsAlike (generations.push generation) (others.push other) where
  size := by rw [Array.size_push, Array.size_push, h.size]
  at_number number := by
    rw [generationAt?_push, generationAt?_push, h.size]
    split
    · exact .some alike
    · exact h.at_number number

/-- Remembering runs changes nothing of what has to be alike. -/
theorem remember {session : Session} {count : Nat}
    (h : GenerationsAlike (session.generations.take count) others) (version : Nat)
    (document : DocumentId) :
    GenerationsAlike ((session.remember version document).generations.take count) others where
  size := by
    have size : (session.remember version document).generations.size = session.generations.size :=
      Session.version_remember session version document
    rw [← h.size, Array.take_eq_extract, Array.take_eq_extract, Array.size_extract,
      Array.size_extract, size]
  at_number number := by
    have before := Session.generationAt?_take session.generations count number
    rw [Session.generationAt?_take]
    by_cases le : number ≤ count
    · rw [if_pos le] at before ⊢
      rw [Session.generationAt?_remember]
      cases found : generationAt? session.generations number with
      | none =>
          rw [h.eq_none (before.trans found)]
          exact .none
      | some generation =>
          obtain ⟨other, found', alike⟩ := h.exists_alike (before.trans found)
          rw [found', Option.map_some]
          split
          · obtain ⟨documents, methods, deltas, lines, faithful, other_faithful⟩ := alike.state
            exact .some { alike with
              state := ⟨documents, methods, deltas, lines.remember document,
                faithful.remember document, other_faithful⟩ }
          · exact .some alike
    · rw [if_neg le] at before ⊢
      rw [h.eq_none before]
      exact .none

end GenerationsAlike

/-! ### Questions -/

/-- Questions about lines are answered the same. -/
structure Snapshot.LinesAlike (snapshot other : Snapshot) : Prop where
  /-- Which documents a method is in. -/
  documentsOf : snapshot.documentsOf = other.documentsOf
  /-- Which lines a method has in a document. -/
  lines? : snapshot.lines? = other.lines?
  /-- Which methods are on a line. -/
  methodsOn : snapshot.methodsOn = other.methodsOn
  /-- Where the points of a method are. -/
  points? : snapshot.points? = other.points?
  /-- At which offsets of methods a line is. -/
  offsetsOn : snapshot.offsetsOn = other.offsetsOn
  /-- What the next line with code is. -/
  nextCodeLine? : snapshot.nextCodeLine? = other.nextCodeLine?

/-- Questions about lines and about how methods moved are answered the same. -/
structure Snapshot.MethodsAlike (snapshot other : Snapshot) : Prop
    extends LinesAlike snapshot other where
  /-- By how many lines a method moved. -/
  deltas? : snapshot.deltas? = other.deltas?

/-- All questions to versions are answered the same. -/
structure Snapshot.AnswersAlike (snapshot other : Snapshot) : Prop
    extends MethodsAlike snapshot other where
  /-- Which version is shown. -/
  version : snapshot.version = other.version
  /-- Which documents there are. -/
  documents : snapshot.documents = other.documents
  /-- How many documents there are. -/
  documentCount : snapshot.documentCount = other.documentCount
  /-- How many methods there are. -/
  methodCount : snapshot.methodCount = other.methodCount
  /-- Which document a path stands for. -/
  findDocument? : snapshot.findDocument? = other.findDocument?
  /-- What the current version of a document is. -/
  document? : snapshot.document? = other.document?
  /-- Which path a document has. -/
  path? : snapshot.path? = other.path?
  /-- Where the debug information of a method is. -/
  place? : snapshot.place? = other.place?
  /-- What the debug information of a method is. -/
  record? : snapshot.record? = other.record?
  /-- Which method is the first one on a line. -/
  firstMethodOn? : snapshot.firstMethodOn? = other.firstMethodOn?

/-- The search for the next line with code goes by extents that are next, and by points. -/
theorem Snapshot.searchRounds_congr {snapshot other : Snapshot}
    (points : snapshot.points? = other.points?)
    (extents : snapshot.state.lines.nextExtents = other.state.lines.nextExtents)
    (document : DocumentId) (line : UInt32) (rounds : Nat) (cursor : UInt32) :
    snapshot.searchRounds document line rounds cursor =
      other.searchRounds document line rounds cursor := by
  have round : snapshot.searchFrom = other.searchFrom := by
    funext document line cursor
    rw [searchFrom, searchFrom, extents, points]
  induction rounds generalizing cursor with
  | zero => rfl
  | succ rounds ih =>
      rw [searchRounds, searchRounds, round]
      simp only [ih]

namespace Snapshot.Alike

variable {snapshot other : Snapshot}

/-- The current debug information of methods is the same. -/
theorem record?_eq (h : snapshot.Alike other) : snapshot.record? = other.record? := by
  funext method
  rw [record?, record?, place?, place?, h.state.methods]
  cases other.state.methods.place? method with
  | none => rfl
  | some place =>
      rw [Option.bind_eq_bind, Option.bind_some, Option.bind_eq_bind, Option.bind_some,
        generation?, generation?]
      cases found : generationAt? snapshot.generations place.generation with
      | none => rw [h.generations.eq_none found]
      | some owner =>
          obtain ⟨owner', found', alike⟩ := h.generations.exists_alike found
          rw [found', Option.bind_some, Option.bind_some, alike.metadata]

/-- So are their points. -/
theorem points?_eq (h : snapshot.Alike other) : snapshot.points? = other.points? := by
  funext method
  rw [points?, points?, place?, place?, deltas?, deltas?, h.state.methods, h.state.deltas]
  cases other.state.methods.place? method with
  | none => rfl
  | some place =>
      rw [Option.bind_eq_bind, Option.bind_some, Option.bind_eq_bind, Option.bind_some,
        generation?, generation?]
      cases found : generationAt? snapshot.generations place.generation with
      | none => rw [h.generations.eq_none found]
      | some owner =>
          obtain ⟨owner', found', alike⟩ := h.generations.exists_alike found
          rw [found', Option.bind_eq_bind, Option.bind_some, Option.bind_eq_bind,
            Option.bind_some, alike.metadata, alike.documentId?_eq]

/-- The methods on a line are found in extents, and not in what is remembered of them. -/
theorem methodsOn_eq (h : snapshot.Alike other) : snapshot.methodsOn = other.methodsOn := by
  funext document line
  exact LineIndex.Answer.hits.inj
    (h.state.lines.answer h.state.faithful h.state.other_faithful (.hits document line))

/-- The next line with code may be looked up in remembered runs, which are the right ones. -/
theorem nextCodeLine?_eq (h : snapshot.Alike other) :
    snapshot.nextCodeLine? = other.nextCodeLine? := by
  have extents : snapshot.state.lines.nextExtents = other.state.lines.nextExtents := by
    funext document cursor
    exact LineIndex.Answer.extents.inj
      (h.state.lines.answer h.state.faithful h.state.other_faithful (.nextExtents document cursor))
  funext document line
  rw [nextCodeLine?, nextCodeLine?, searchRounds_congr h.points?_eq extents,
    h.state.lines.extentsIn]

/-- **Versions that are alike answer alike.** -/
theorem answersAlike (h : snapshot.Alike other) : snapshot.AnswersAlike other where
  version := h.generations.size
  documents := by rw [documents, documents, h.state.documents]
  documentCount := by rw [documentCount, documentCount, h.state.documents]
  methodCount := by rw [methodCount, methodCount, h.state.methods]
  findDocument? := by
    funext path
    rw [findDocument?, findDocument?, h.state.documents, h.generations.historyOf_eq]
  document? := by
    funext id
    rw [document?, document?, h.state.documents, h.generations.historyOf_eq]
  path? := by
    funext id
    rw [path?, path?, h.state.documents, h.generations.historyOf_eq]
  place? := by
    funext method
    rw [place?, place?, h.state.methods]
  record? := h.record?_eq
  deltas? := by
    funext method
    rw [deltas?, deltas?, h.state.deltas]
  documentsOf := h.state.lines.documents
  lines? := by
    funext method document
    rw [lines?, lines?, LineIndex.lines?, LineIndex.lines?, h.state.lines.extentsIn]
  methodsOn := h.methodsOn_eq
  firstMethodOn? := by
    funext document line
    exact congrArg List.head? (congrFun (congrFun h.methodsOn_eq document) line)
  points? := h.points?_eq
  offsetsOn := by
    funext document line
    rw [offsetsOn, offsetsOn, h.methodsOn_eq, h.points?_eq]
  nextCodeLine? := h.nextCodeLine?_eq

end Snapshot.Alike

/-! ### Updates -/

/-- Deltas of a method come to the same where generations are alike. -/
theorem Move.plan_eq {generations others : Array Generation}
    (alike : GenerationsAlike generations others) {state other : State}
    (methods : state.methods = other.methods) (deltas : state.deltas = other.deltas)
    (method : MethodId) (new : LineDeltas) :
    plan generations state method new = plan others other method new := by
  rw [plan, plan, methods, deltas]
  cases other.methods.place? method with
  | none => rfl
  | some place =>
      dsimp only
      rw [generationOf, generationOf]
      cases found : generationAt? generations place.generation with
      | none => rw [alike.eq_none found]
      | some owner =>
          obtain ⟨owner', found', same⟩ := alike.exists_alike found
          have points : planPoints method place.generation owner =
              planPoints method place.generation owner' := by
            funext known sum points
            rw [planPoints, planPoints, same.documentId?_eq]
          rw [found']
          dsimp only
          rw [Outcome.bind_of_ok rfl, Outcome.bind_of_ok rfl, same.metadata, points]

/-- Line deltas come to the same where generations are alike. -/
theorem Move.planAll_eq {generations others : Array Generation}
    (alike : GenerationsAlike generations others) {state other : State}
    (methods : state.methods = other.methods) (deltas : state.deltas = other.deltas) :
    planAll generations state = planAll others other := by
  have each : plan generations state = plan others other := by
    funext method sum
    exact plan_eq alike methods deltas method sum
  funext redefined deltas
  rw [planAll, planAll, each]

/-- Moves keep line indices the same but for what they remember. -/
theorem LineIndex.SameContent.performAll {lines others : LineIndex}
    (h : SameContent lines others) (moves : List Move) :
    SameContent (Move.performAll lines moves) (Move.performAll others moves) := by
  have shifts : Move.shifts lines = Move.shifts others := by
    funext move
    rw [Move.shifts, Move.shifts, h.documents]
  rw [Move.performAll, Move.performAll, shifts]
  exact (h.perform (.shift _)).perform (.replace _)

/-- Moves keep what an index remembers right. -/
theorem LineIndex.Faithful.performAll {lines : LineIndex} (h : lines.Faithful)
    (moves : List Move) : (Move.performAll lines moves).Faithful :=
  (h.perform (.shift _)).perform (.replace _)

namespace Session

/-- What a session knows is what it knew with its last generation. -/
theorem state_eq (session : Session) :
    session.state =
      ((generationAt? session.generations session.version).map (·.state)).getD .empty := by
  by_cases first : session.version = 0
  · obtain ⟨generations⟩ := session
    obtain rfl : generations = #[] := Array.size_eq_zero_iff.1 first
    rfl
  · have known := at?_version first
    rw [at?, Option.map_eq_some_iff] at known
    obtain ⟨generation, found, eq⟩ := known
    rw [found, Option.map_some, Option.getD_some]
    exact (congrArg Snapshot.state eq).symm

/-- Sessions with generations that are alike know the same. -/
theorem state_alike {session other : Session}
    (h : GenerationsAlike session.generations other.generations) :
    session.state.Alike other.state := by
  have version : session.version = other.version := h.size
  rw [state_eq, state_eq, version]
  cases found : generationAt? session.generations other.version with
  | none =>
      rw [h.eq_none found]
      exact State.alike_empty
  | some generation =>
      obtain ⟨same, found', alike⟩ := h.exists_alike found
      rw [found']
      exact alike.state

/-- **Sessions that are alike take in the same updates**, and the new generations are alike. -/
theorem Taken.alike {session other : Session} {update : Update} {generation : Generation}
    {moves : List Move} {spans : List MethodSpans}
    (h : session.Taken update generation moves spans)
    (alike : GenerationsAlike session.generations other.generations) :
    ∃ same, other.Taken update same moves spans ∧ generation.Alike same := by
  have version : session.version = other.version := alike.size
  have state := state_alike alike
  have plan : Move.planAll session.generations
      { session.state with methods := generation.state.methods } =
      Move.planAll other.generations { other.state with methods := generation.state.methods } := by
    apply Move.planAll_eq alike
    · rfl
    · exact state.deltas
  -- All checks read what is alike, so they pass again; only the new line index can differ.
  let lines := (Move.performAll other.state.lines moves).replaceAll spans
  refine ⟨{ generation with state.lines := lines }, ?_, rfl, rfl, rfl, rfl, rfl, ?_⟩
  · obtain ⟨allowed, number, metadata, documentsBefore, documents, methods, planned, measured, -,
      deltas⟩ := h
    rw [version, state.documents, alike.historyOf_eq] at documents
    rw [version, state.methods] at methods
    rw [plan] at planned
    rw [version] at allowed number measured
    rw [state.documents] at documentsBefore
    rw [state.deltas] at deltas
    exact ⟨allowed, number, metadata, documentsBefore, documents, methods, planned, measured, rfl,
      deltas⟩
  · have same := state.lines.performAll moves
    refine ⟨rfl, rfl, rfl, ?_, ?_, ?_⟩
    · rw [h.lines]
      exact same.perform (.replace spans)
    · rw [h.lines]
      exact (state.faithful.performAll moves).perform (.replace spans)
    · exact (state.other_faithful.performAll moves).perform (.replace spans)

end Session

end SymbolHistory
