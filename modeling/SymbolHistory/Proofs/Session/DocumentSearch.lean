import SymbolHistory.Proofs.DocumentGroups
import SymbolHistory.Proofs.Session.DocumentAnswers
import SymbolHistory.Proofs.Session.Permanence

/-!
# Looking paths up

A path that no document has may still stand for one: for the document that is closest to it among
those with its file name. The search goes through a group that is kept along with the documents, and
takes a shortcut where that has only one. It is as good as a search by rules through all documents,
in every version of every session.

## Main definitions

* `Snapshot.sharing` : the documents with a file name.
* `Snapshot.closest?` : the one of them that is closest to a path.
* `Snapshot.FindsPaths` : a path stands for the document that is closest to it.

## Main results

* `Snapshot.Documented.findDocument?_eq` : so it does where documents are grouped.
* `Session.grouped_at` : that they are, in every version.
* `Session.paths_found` : paths stand for the documents closest to them, in every session.
-/

namespace SymbolHistory

open Declaration DocumentRegistry

namespace Snapshot

section Closest

variable (snapshot : Snapshot) (fold : String → String)

/-- The documents with a file name that comes to `key`, in the order of their numbers; `fold` says
what file names come to. -/
def sharing (key : String) : List DocumentId :=
  snapshot.documents.filter fun id =>
    (snapshot.path? id).any fun own => fold (Text.fileName own) = key

/-- The document that is closest to a path, among those with its file name. It is the first one with
the path, or else the first one with a path that comes to the same, or else the first one with the
very file name, or else the first one. -/
def closest? (path : String) : Option DocumentId :=
  let candidates := snapshot.sharing fold (fold (Text.fileName path))
  let first (like : String → Bool) := candidates.find? fun id => (snapshot.path? id).any like
  first (fun own => own = path)
    <|> first (fun own => fold own = fold path)
    <|> first (fun own => Text.fileName own = Text.fileName path)
    <|> candidates.head?

variable {snapshot fold}

/-- A document shares a file name if that of its path comes to it. -/
theorem mem_sharing_iff {key : String} {id : DocumentId} :
    id ∈ snapshot.sharing fold key ↔ id ∈ snapshot.documents ∧
      ∃ own, snapshot.path? id = some own ∧ fold (Text.fileName own) = key := by
  rw [sharing, List.mem_filter, Option.any_eq_true]
  simp only [decide_eq_true_eq]

/-- Only one document can be closest if it is the only one with the file name. -/
theorem closest?_of_single {path : String} {only : DocumentId}
    (single : snapshot.sharing fold (fold (Text.fileName path)) = [only]) :
    snapshot.closest? fold path = some only := by
  rw [closest?, single]
  exact find?_singleton_orElse _ (find?_singleton_orElse _ (find?_singleton_orElse _ rfl))

/-- Some document is closest, if any has the file name. -/
theorem closest?_eq_none_iff {path : String} :
    snapshot.closest? fold path = none ↔
      snapshot.sharing fold (fold (Text.fileName path)) = [] := by
  rw [closest?]
  constructor
  · intro missing
    simp only [Option.orElse_eq_orElse, Option.orElse_eq_or, Option.or_eq_none_iff] at missing
    exact List.head?_eq_none_iff.1 missing.2.2.2
  · intro missing
    rw [missing]
    rfl

end Closest

/-- A path stands for the document that is closest to it. -/
structure FindsPaths (snapshot : Snapshot) : Prop where
  /-- Documents come in the order of their numbers. So the first one is the smallest. -/
  ascending : snapshot.documents.Pairwise (·.val < ·.val)
  /-- Every document has a path, and is in one group only, which is that of its file name. -/
  group_iff : ∀ id ∈ snapshot.documents, ∃ own, snapshot.path? id = some own ∧
    ∀ key, (∃ group, snapshot.state.documents.groups[key]? = some group ∧ id ∈ group) ↔
      key = Text.lowercase (Text.fileName own)
  /-- Groups have all documents with their file names, and no group is without documents. -/
  groups_eq : ∀ key group, snapshot.state.documents.groups[key]? = some group ↔
    group ≠ [] ∧ group = snapshot.sharing Text.lowercase key
  /-- A path stands for nothing only if no document has its file name. -/
  findDocument?_eq_none_iff : ∀ path, snapshot.findDocument? path = none ↔
    snapshot.sharing Text.lowercase (Text.lowercase (Text.fileName path)) = []
  /-- Otherwise it stands for the closest one. -/
  findDocument?_eq : ∀ path, snapshot.findDocument? path = snapshot.closest? Text.lowercase path
  /-- That is the only one in a group that has no other. -/
  closest?_of_only : ∀ path only, snapshot.state.documents.group? path = some [only] →
    snapshot.closest? Text.lowercase path = some only

variable {snapshot : Snapshot} {updates : List Update}

/-- Every document has a path. -/
theorem IdentifiesDocuments.exists_path? (h : snapshot.IdentifiesDocuments) {id : DocumentId}
    (mem : id ∈ snapshot.documents) : ∃ own, snapshot.path? id = some own := by
  rw [h.documents_eq] at mem
  obtain ⟨i, lt, rfl⟩ := List.mem_map.1 mem
  have lt := List.mem_range.1 lt
  refine ⟨snapshot.declaredNames[i], ?_⟩
  rw [h.path?_eq, if_neg (Nat.succ_ne_zero i), Nat.add_sub_cancel]
  exact List.getElem?_eq_getElem lt

/-- A document is known by the file name of its path. -/
theorem Documented.fileName_eq (h : snapshot.Documented updates) (id : DocumentId) :
    (snapshot.state.documents.place? id).map (·.fileName) =
      (snapshot.path? id).map Text.fileName := by
  rw [h.path?_eq, h.records.place]
  cases named : nameOf? (ofUpdates updates) id with
  | none => rfl
  | some name =>
      obtain ⟨latest, found⟩ := exists_latest? (mem_names_of_nameOf? named)
      rw [Option.bind_some, found, Option.map_some, Option.map_some, Option.map_some,
        Declaration.place, (mem_of_latest? found).2]

/-- A condition on the file name of a document is one on that of its path. -/
theorem Documented.any_fileName (h : snapshot.Documented updates) (id : DocumentId)
    (p : String → Bool) :
    (snapshot.state.documents.place? id).any (fun place => p place.fileName) =
      (snapshot.path? id).any fun own => p (Text.fileName own) := by
  have same := congrArg (Option.any p) (h.fileName_eq id)
  rwa [Option.any_map, Option.any_map] at same

/-- Documents have the same file names as their paths. -/
theorem Documented.sharing_eq (h : snapshot.Documented updates) (key : String) :
    snapshot.state.documents.sharing key = snapshot.sharing Text.lowercase key := by
  refine List.filter_congr fun id _ => ?_
  exact h.any_fileName id fun name => decide (Text.lowercase name = key)

/-- A path stands for the document that is closest to it, if documents are grouped. -/
theorem Documented.findDocument?_eq (h : snapshot.Documented updates)
    (grouped : snapshot.state.documents.Grouped) (path : String) :
    snapshot.findDocument? path = snapshot.closest? Text.lowercase path := by
  rw [findDocument?]
  have members := grouped.getD_group? path
  rw [h.sharing_eq, groupKey] at members
  cases found : snapshot.state.documents.group? path with
  | none =>
      rw [found] at members
      rw [find?_of_group?_eq_none found, closest?_eq_none_iff.2 members.symm]
  | some group =>
      rw [found, Option.getD_some] at members
      have ascending : group.Pairwise (·.val < ·.val) :=
        members ▸ (pairwise_ids snapshot.state.documents).filter _
      have exactly : ∀ id, decide (snapshot.state.documents.path? (historyOf snapshot.generations)
          id = some path) = (snapshot.path? id).any fun own => own = path := by
        intro id
        rw [path?]
        cases snapshot.state.documents.path? (historyOf snapshot.generations) id with
        | none => rfl
        | some own => simp
      have names := fun id => h.any_fileName id fun name => decide (name = Text.fileName path)
      -- Rules ask for stored file names, which are those of the paths.
      rw [find?_of_group? found, smallest?_eq_head? ascending]
      simp only [exactly, names]
      rw [closest?, ← members]
      rfl

/-- **A version whose documents are grouped finds paths.** -/
theorem Documented.findsPaths (h : snapshot.Documented updates)
    (identifies : snapshot.IdentifiesDocuments) (grouped : snapshot.state.documents.Grouped) :
    snapshot.FindsPaths := by
  have groups_eq : ∀ key group, snapshot.state.documents.groups[key]? = some group ↔
      group ≠ [] ∧ group = snapshot.sharing Text.lowercase key := by
    intro key group
    rw [grouped.getElem?_eq_some_iff, h.sharing_eq]
  refine ⟨pairwise_ids _, ?_, groups_eq, ?_, h.findDocument?_eq grouped, ?_⟩
  · intro id mem
    obtain ⟨own, named⟩ := identifies.exists_path? mem
    refine ⟨own, named, fun key => ?_⟩
    constructor
    · rintro ⟨group, found, group_mem⟩
      rw [((groups_eq _ _).1 found).2] at group_mem
      obtain ⟨-, same, named', rfl⟩ := mem_sharing_iff.1 group_mem
      rw [Option.some.inj (named.symm.trans named')]
    · rintro rfl
      have shares : id ∈ snapshot.sharing Text.lowercase (Text.lowercase (Text.fileName own)) :=
        mem_sharing_iff.2 ⟨mem, own, named, rfl⟩
      exact ⟨_, (groups_eq _ _).2 ⟨List.ne_nil_of_mem shares, rfl⟩, shares⟩
  · intro path
    rw [h.findDocument?_eq grouped, closest?_eq_none_iff]
  · intro path only found
    exact closest?_of_single ((groups_eq _ _).1 found).2.symm

end Snapshot

namespace Session

/-- The documents of every version are grouped. -/
theorem grouped_at {events : List Event} {version : Nat} {snapshot : Snapshot}
    (known : (ofEvents events).at? version = some snapshot) :
    snapshot.state.documents.Grouped :=
  at?_induction (motive := fun snapshot _ => snapshot.state.documents.Grouped) grouped_empty
    (fun _ _ _ alike grouped => alike.state.documents ▸ grouped)
    (fun _ _ _ _ _ _ _ grouped taken => grouped.update taken.documents) known

/-- **Paths are found.** In every version of every session, a path stands for the document that is
closest to it, as long as the rows of updates are numbered. -/
theorem paths_found {events : List Event}
    (numbered : ∀ update, .offer update ∈ events → update.metadata.Numbered) {version : Nat}
    {snapshot : Snapshot} (known : (ofEvents events).at? version = some snapshot) :
    snapshot.FindsPaths := by
  have documented := documented_ofEvents numbered
  exact (documented.versions version snapshot known).findsPaths
    (documented.identifiesDocuments known) (grouped_at known)

/-- Two documents whose file names differ in case only. -/
def twoSpellings : Update :=
  ⟨⟨none, #[.ofName 1 "a/Foo", .ofName 2 "b/foo"], #[], []⟩, []⟩

theorem numbered_twoSpellings : twoSpellings.metadata.Numbered :=
  ⟨by decide, by decide⟩

/-- The two documents have their paths, in order. -/
theorem exists_at?_twoSpellings : ∃ snapshot,
    (ofEvents [.offer twoSpellings]).at? 1 = some snapshot ∧
      snapshot.documents = [⟨1⟩, ⟨2⟩] ∧ snapshot.path? = fun id =>
        if id.val = 0 then none else ["a/Foo", "b/foo"][id.val - 1]? := by
  have admits : empty.Admits twoSpellings :=
    ⟨.inr rfl, by decide, fun some => absurd rfl some, fun _ moving => absurd moving.1
      List.not_mem_nil, fun record mem => absurd mem (Array.not_mem_empty _)⟩
  obtain ⟨generation, moves, spans, taken, -, known⟩ := admits.exists_first numbered_twoSpellings
  have identifies :=
    (documented_ofEvents (numbered_singleton numbered_twoSpellings)).identifiesDocuments known
  have names : Snapshot.declaredNames ⟨#[generation], generation.state⟩ = ["a/Foo", "b/foo"] := by
    rw [Snapshot.declaredNames_singleton, taken.metadata]
    rfl
  refine ⟨_, known, ?_, ?_⟩
  · rw [identifies.documents_eq, names]
    rfl
  · funext id
    rw [identifies.path?_eq, names]

/-- Of two documents with the same file name but for case, a path stands for the one with the path,
but for case; or else for the one with the very file name; or else for the first one. -/
theorem paths_found_twoSpellings :
    (∀ update, .offer update ∈ [Event.offer twoSpellings] → update.metadata.Numbered) ∧
      ∃ snapshot, (ofEvents [.offer twoSpellings]).at? 1 = some snapshot ∧
        snapshot.FindsPaths ∧ snapshot.findDocument? "b/foo" = some ⟨2⟩ ∧
        snapshot.findDocument? "B/Foo" = some ⟨2⟩ ∧
        snapshot.findDocument? "c/foo" = some ⟨2⟩ ∧
        snapshot.findDocument? "c/FOO" = some ⟨1⟩ ∧
        snapshot.findDocument? "b/bar" = none := by
  have numbered := numbered_singleton numbered_twoSpellings
  obtain ⟨snapshot, known, documents, paths⟩ := exists_at?_twoSpellings
  have finds := paths_found numbered known
  refine ⟨numbered, snapshot, known, finds, ?_⟩
  simp only [finds.findDocument?_eq, Snapshot.closest?, Snapshot.sharing, documents, paths]
  decide +kernel

end Session

end SymbolHistory
