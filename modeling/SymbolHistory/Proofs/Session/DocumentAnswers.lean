import SymbolHistory.Proofs.Session.Acceptance

/-!
# What a version answers about documents

Documents are numbered in the order in which generations declare their names for the first time.
Whatever happens to a session, a document keeps its number and its name, while its content is that
of the last generation that declared the name.

## Main definitions

* `Snapshot.declaredNames` : the names that the generations of a version declare.
* `Snapshot.IdentifiesDocuments` : questions about documents are answered by name.

## Main results

* `Session.documents_keep_identity` : that is so in every version, and later ones agree on names.
-/

namespace SymbolHistory

open Declaration

namespace Snapshot

/-- The names that the generations of a version declare, each once, in the order in which they were
first declared. -/
def declaredNames (snapshot : Snapshot) : List String :=
  (snapshot.generations.toList.flatMap fun generation =>
    generation.metadata.documents.toList.map (·.name)).eraseDups

/-- Questions about documents are answered by the names that generations declare. -/
structure IdentifiesDocuments (snapshot : Snapshot) : Prop where
  /-- There is a document for every name, and they are numbered from 1. -/
  documents_eq : snapshot.documents =
    (List.range snapshot.declaredNames.length).map fun i => ⟨i + 1⟩
  /-- Names are numbered in the order in which they were first declared. -/
  path?_eq : ∀ id, snapshot.path? id =
    if id.val = 0 then none else snapshot.declaredNames[id.val - 1]?
  /-- No two documents have the same name. -/
  path?_inj : ∀ id other name, snapshot.path? id = some name → snapshot.path? other = some name →
    id = other
  /-- A document is what the last generation with its name declares. -/
  document?_eq : ∀ id name, snapshot.path? id = some name →
    ∃ number generation document, snapshot.generation? number = some generation ∧
      document ∈ generation.metadata.documents ∧ document.name = name ∧
      snapshot.document? id = some document ∧
      ∀ later other, number < later → snapshot.generation? later = some other →
        ∀ declared ∈ other.metadata.documents, declared.name ≠ name
  /-- A row of a generation is the document with the row's name. -/
  documentId?_iff : ∀ number generation, snapshot.generation? number = some generation →
    ∀ row id, generation.documentId? row = some id ↔
      ∃ document, generation.metadata.document? row = some document ∧
        snapshot.path? id = some document.name
  /-- A name stands for its document. -/
  findDocument?_eq : ∀ id name, snapshot.path? id = some name →
    snapshot.findDocument? name = some id

/-- The only generation of a version declares all its names. -/
theorem declaredNames_singleton (generation : Generation) (state : State) :
    declaredNames ⟨#[generation], state⟩ =
      (generation.metadata.documents.toList.map (·.name)).eraseDups := by
  rw [declaredNames, List.flatMap_singleton]

variable {snapshot : Snapshot} {updates : List Update}

/-- The names that updates declare are those of the generations they have made. -/
theorem Documented.declaredNames_eq (h : snapshot.Documented updates)
    (size : snapshot.version = updates.length) :
    snapshot.declaredNames = names (ofUpdates updates) := by
  have declared : (ofUpdates updates).map (·.document.name) =
      (updates.map (·.metadata)).flatMap fun metadata =>
        metadata.documents.toList.map (·.name) := by
    rw [map_name_ofUpdates, List.flatMap_map]
  rw [names, declared, ← h.map_metadata size, List.flatMap_map, declaredNames]

/-- The path of a document is the name with its number. -/
theorem Documented.path?_eq (h : snapshot.Documented updates) (id : DocumentId) :
    snapshot.path? id = nameOf? (ofUpdates updates) id :=
  h.records.path?_eq h.readable id

/-- The generations of a version are those of its updates. -/
theorem Documented.exists_update (h : snapshot.Documented updates)
    (size : snapshot.version = updates.length) {number : Nat} {generation : Generation}
    (owned : snapshot.generation? number = some generation) :
    ∃ i update, number = i + 1 ∧ updates[i]? = some update ∧
      generation.metadata = update.metadata ∧
      ∀ row id, generation.documentId? row = some id ↔
        ∃ document ∈ update.metadata.documents, document.rid = row ∧
          snapshot.path? id = some document.name := by
  rcases number with _ | i
  · cases owned
  · have at_index : snapshot.generations[i]? = some generation := owned
    have lt : i < updates.length := by
      rw [← size]
      exact (Array.getElem?_eq_some_iff.1 at_index).1
    obtain ⟨same, owned', metadata, rows⟩ :=
      h.generations i updates[i] (List.getElem?_eq_getElem lt)
    obtain rfl := Option.some.inj (owned'.symm.trans owned)
    refine ⟨i, updates[i], rfl, List.getElem?_eq_getElem lt, metadata, fun row id => ?_⟩
    simp only [rows, h.path?_eq]

/-- A document is what the last generation with its name declares. -/
theorem Documented.exists_document? (h : snapshot.Documented updates)
    (size : snapshot.version = updates.length) {id : DocumentId} {name : String}
    (named : snapshot.path? id = some name) :
    ∃ number generation document, snapshot.generation? number = some generation ∧
      document ∈ generation.metadata.documents ∧ document.name = name ∧
      snapshot.document? id = some document ∧
      ∀ later other, number < later → snapshot.generation? later = some other →
        ∀ declared ∈ other.metadata.documents, declared.name ≠ name := by
  rw [h.path?_eq] at named
  obtain ⟨latest, found⟩ := exists_latest? (mem_names_of_nameOf? named)
  obtain ⟨mem, same⟩ := mem_of_latest? found
  obtain ⟨i, update, at_index, number, known⟩ := mem_ofUpdates_iff.1 mem
  obtain ⟨generation, owned, metadata, -⟩ := h.generations i update at_index
  refine ⟨i + 1, generation, latest.document, owned, metadata ▸ known, same, ?_, ?_⟩
  · rw [document?, h.records.document?_eq h.readable, named, Option.bind_some, found,
      Option.map_some]
  · intro later other lt other_owned declared declared_mem eq
    obtain ⟨j, update', rfl, at_index', metadata', -⟩ := h.exists_update size other_owned
    rw [metadata'] at declared_mem
    have mem' : ⟨j + 1, declared⟩ ∈ ofUpdates updates :=
      mem_ofUpdates_iff.2 ⟨j, update', at_index', rfl, declared_mem⟩
    have le := le_of_latest? (pairwise_ofUpdates updates) found mem' eq
    rw [number] at le
    exact absurd le (Nat.not_le_of_lt lt)

/-- A version that knows its documents answers by name. -/
theorem Documented.identifiesDocuments (h : snapshot.Documented updates)
    (size : snapshot.version = updates.length) : snapshot.IdentifiesDocuments where
  documents_eq := by
    rw [documents, DocumentRegistry.ids, h.records.size, h.declaredNames_eq size]
  path?_eq id := by
    rw [h.path?_eq, nameOf?, h.declaredNames_eq size]
  path?_inj id other name named named' := by
    rw [h.path?_eq] at named named'
    exact nameOf?_inj named named'
  document?_eq id name := h.exists_document? size
  documentId?_iff number generation owned row id := by
    obtain ⟨i, update, -, at_index, metadata, rows⟩ := h.exists_update size owned
    have numbered := h.numbered update (List.mem_of_getElem? at_index)
    rw [rows, metadata]
    simp only [numbered.document?_eq_some_iff, and_assoc]
  findDocument?_eq id name named := by
    rw [h.path?_eq] at named
    exact h.records.find?_eq h.readable named

end Snapshot

namespace Session

/-- All versions of a session that knows its documents answer by name. -/
theorem Documented.identifiesDocuments {session : Session} {updates : List Update}
    (h : session.Documented updates) {version : Nat} {snapshot : Snapshot}
    (known : session.at? version = some snapshot) : snapshot.IdentifiesDocuments := by
  refine (h.versions version snapshot known).identifiesDocuments ?_
  rw [version_of_at? known, List.length_take, Nat.min_eq_left (h.version ▸ le_of_at? known)]

/-- **Documents keep their identity**, as long as the rows of updates are numbered. Every version of
every session identifies its documents by name, and whatever happens then, later versions have the
same names for the same documents. -/
theorem documents_keep_identity {events : List Event}
    (numbered : ∀ update, .offer update ∈ events → update.metadata.Numbered) {version : Nat}
    {snapshot : Snapshot} (known : (ofEvents events).at? version = some snapshot) :
    snapshot.IdentifiesDocuments ∧
      ∀ more, (∀ update, .offer update ∈ more → update.metadata.Numbered) →
        ∀ later after, version ≤ later → (ofEvents (events ++ more)).at? later = some after →
          ∀ id name, snapshot.path? id = some name → after.path? id = some name := by
  have session := documented_ofEvents numbered
  have before := session.versions version snapshot known
  have le := session.version ▸ le_of_at? known
  refine ⟨session.identifiesDocuments known, ?_⟩
  intro more more_numbered later after later_le known' id name named
  have all : ∀ update, .offer update ∈ events ++ more → update.metadata.Numbered := by
    intro update mem
    rcases List.mem_append.1 mem with mem | mem
    · exact numbered update mem
    · exact more_numbered update mem
  have then_documented := (documented_ofEvents all).versions later after known'
  have first : (empty.accepted events).take version <+:
      (empty.accepted (events ++ more)).take later := by
    rw [accepted_append, ← List.take_append_of_le_length le]
    exact List.take_prefix_take_left later_le
  obtain ⟨rest, eq⟩ := ofUpdates_prefix first
  rw [before.path?_eq] at named
  rw [then_documented.path?_eq, ← eq]
  exact nameOf?_append named rest

/-- An update with a new document in the first row and a known one in the second. -/
def redeclare : Update :=
  ⟨⟨none, #[.ofName 1 "b.cs", .ofName 2 "a.cs"], #[], []⟩, []⟩

theorem numbered_redeclare : redeclare.metadata.Numbered where
  documents := by
    intro i lt
    have lt : i < 2 := lt
    obtain rfl | rfl : i = 0 ∨ i = 1 := by omega
    · rfl
    · rfl
  methods i lt := absurd lt (Nat.not_lt_zero i)

/-- The document of a program with one method has its name. -/
theorem path?_ofLineTable {stored : List UInt8} {owner : Generation}
    (metadata : owner.metadata = (ofLineTable stored).metadata)
    (identifies : Snapshot.IdentifiesDocuments ⟨#[owner], owner.state⟩) :
    Snapshot.path? ⟨#[owner], owner.state⟩ ⟨1⟩ = some "a.cs" := by
  have names : Snapshot.declaredNames ⟨#[owner], owner.state⟩ = ["a.cs"] := by
    rw [Snapshot.declaredNames_singleton, metadata]
    rfl
  rw [identifies.path?_eq, names]
  rfl

/-- The document row of such a program stands for the only document. -/
theorem documentId?_ofLineTable {stored : List UInt8} {owner : Generation}
    (metadata : owner.metadata = (ofLineTable stored).metadata)
    (identifies : Snapshot.IdentifiesDocuments ⟨#[owner], owner.state⟩) :
    owner.documentId? 1 = some ⟨1⟩ := by
  refine (identifies.documentId?_iff 1 owner rfl 1 ⟨1⟩).2
    ⟨.ofName 1 "a.cs", ?_, path?_ofLineTable metadata identifies⟩
  rw [metadata]
  rfl

/-- A document that is declared again behind a new one. -/
theorem documents_keep_identity_redeclare :
    (∀ update, .offer update ∈ [Event.offer oneMethod] → update.metadata.Numbered) ∧
      ∃ snapshot after, (ofEvents [.offer oneMethod]).at? 1 = some snapshot ∧
        (ofEvents ([.offer oneMethod] ++ [.offer redeclare])).at? 2 = some after ∧
        snapshot.IdentifiesDocuments ∧ after.path? ⟨1⟩ = some "a.cs" := by
  have numbered := numbered_singleton numbered_oneMethod
  obtain ⟨generation, moves, spans, taken, -, known⟩ :=
    admits_oneMethod.exists_first numbered_oneMethod
  have version := known_oneMethod.1
  have admits : (ofEvents [.offer oneMethod]).Admits redeclare :=
    ⟨.inr rfl, by decide, fun _ => ⟨rfl, by decide, by decide⟩,
      fun method moving => absurd moving.1 List.not_mem_nil,
      fun record mem => absurd mem (Array.not_mem_empty _)⟩
  obtain ⟨new, applied⟩ := admits.exists_apply (sound_ofEvents numbered)
    (documented_ofEvents numbered) numbered_redeclare
  have then_known : (ofEvents ([.offer oneMethod] ++ [.offer redeclare])).at? 2 =
      some ⟨new.generations, new.state⟩ := by
    have all : ofEvents ([.offer oneMethod] ++ [.offer redeclare]) = new := by
      rw [ofEvents, List.foldl_append, ← ofEvents, List.foldl_cons, List.foldl_nil, perform,
        applied]
    have last : new.version = 2 := by rw [version_apply applied, version]
    rw [all, ← last, at?_version (by rw [last]; decide)]
  obtain ⟨identifies, later⟩ := documents_keep_identity numbered known
  refine ⟨numbered, _, _, known, then_known, identifies, ?_⟩
  exact later _ (numbered_singleton numbered_redeclare) 2 _ (by decide) then_known ⟨1⟩ "a.cs"
    (path?_ofLineTable taken.metadata identifies)

end Session

end SymbolHistory
