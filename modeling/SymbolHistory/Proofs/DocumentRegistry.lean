import SymbolHistory.DocumentRegistry
import SymbolHistory.Proofs.Metadata.Numbered
import SymbolHistory.Proofs.Outcome
import Mathlib.Data.List.Duplicate
import Mathlib.Data.List.Induction

/-!
# What declarations make of document identities

All that happens to a registry is that generations declare documents. So what it knows can be read
off the list of declarations: the names are numbered in the order in which they were first declared,
and a document is where its name was declared last. A registry keeps to that although it never
stores a name, and finds names by comparing the ones that it reads from the generations.

## Main definitions

* `Declaration` : a document, and the generation that declares it.
* `Declaration.names`, `Declaration.nameOf?` : the declared names and their numbers.
* `Declaration.latest?` : where a name was declared last.
* `DocumentRegistry.Records` : a registry knows what declarations say.

## Main results

* `DocumentRegistry.Records.path?_eq` : the path of a document is the name with its number.
* `DocumentRegistry.Records.find?_eq` : looking a name up finds its number.
* `DocumentRegistry.Records.declare_of_twice`, `DocumentRegistry.Records.exists_declare` : declaring
  a document fails exactly if the generation has declared its name before.
* `DocumentRegistry.Records.update_cases` : so does taking in all documents of a generation.
-/

namespace SymbolHistory

/-- A document, and the generation that declares it. -/
structure Declaration where
  /-- The number of the generation. -/
  generation : Nat
  /-- The document. -/
  document : Document
  deriving DecidableEq

namespace Declaration

/-- The declared names, each once, in the order in which they were first declared. -/
def names (declared : List Declaration) : List String :=
  (declared.map (·.document.name)).eraseDups

/-- The name with a number; names are counted from 1. -/
def nameOf? (declared : List Declaration) (id : DocumentId) : Option String :=
  if id.val = 0 then none else (names declared)[id.val - 1]?

/-- The last declaration of a name. -/
def latest? (declared : List Declaration) (name : String) : Option Declaration :=
  (declared.filter (·.document.name = name)).getLast?

/-- Where a document is that was declared last in this way. -/
def place (declaration : Declaration) : DocumentPlace :=
  ⟨declaration.document.rid, declaration.generation, Text.fileName declaration.document.name⟩

/-- What is declared can be read from its generation. -/
def Readable (history : Nat → Option Metadata) (declared : List Declaration) : Prop :=
  ∀ declaration ∈ declared, ∃ metadata, history declaration.generation = some metadata ∧
    metadata.document? declaration.document.rid = some declaration.document

/-! ### Names and numbers -/

/-- The names are those of the documents that are declared. -/
theorem mem_names {declared : List Declaration} {name : String} :
    name ∈ names declared ↔ ∃ declaration ∈ declared, declaration.document.name = name := by
  rw [names, List.mem_eraseDups, List.mem_map]

/-- One more declaration adds its name, unless that is known. -/
theorem names_append_singleton (declared : List Declaration) (last : Declaration) :
    names (declared ++ [last]) =
      if last.document.name ∈ names declared then names declared
      else names declared ++ [last.document.name] := by
  have known : last.document.name ∈ names declared ↔
      last.document.name ∈ declared.map (·.document.name) := List.mem_eraseDups
  rw [names, List.map_append, List.eraseDups_append, List.map_singleton]
  by_cases h : last.document.name ∈ declared.map (·.document.name)
  · rw [if_pos (known.2 h), List.removeAll, List.filter_cons_of_neg (by simpa using h)]
    simp [names]
  · rw [if_neg (known.not.2 h), List.removeAll, List.filter_cons_of_pos (by simpa using h)]
    simp [names, List.eraseDups_cons]

/-- Each name is there once. -/
theorem nodup_names (declared : List Declaration) : (names declared).Nodup := by
  induction declared using List.reverseRecOn with
  | nil => simp [names]
  | append_singleton declared last ih =>
      rw [names_append_singleton]
      split
      · exact ih
      · next new =>
        refine List.nodup_append.2 ⟨ih, List.nodup_singleton _, fun name mem other other_mem => ?_⟩
        rintro rfl
        exact new (List.mem_singleton.1 other_mem ▸ mem)

/-- Further declarations put their names behind the others. -/
theorem names_prefix (declared more : List Declaration) :
    names declared <+: names (declared ++ more) := by
  rw [names, names, List.map_append, List.eraseDups_append]
  exact List.prefix_append _ _

/-- Names are numbered from 1, in the order in which they were first declared. -/
theorem nameOf?_eq_some_iff {declared : List Declaration} {id : DocumentId} {name : String} :
    nameOf? declared id = some name ↔
      ∃ i, id = ⟨i + 1⟩ ∧ (names declared)[i]? = some name := by
  rcases id with ⟨_ | i⟩
  · simp [nameOf?]
  · simp [nameOf?]

/-- A name that has a number was declared. -/
theorem mem_names_of_nameOf? {declared : List Declaration} {id : DocumentId} {name : String}
    (h : nameOf? declared id = some name) : name ∈ names declared := by
  obtain ⟨i, -, found⟩ := nameOf?_eq_some_iff.1 h
  exact List.mem_of_getElem? found

/-- Every declared name has a number. -/
theorem exists_nameOf? {declared : List Declaration} {name : String}
    (h : name ∈ names declared) : ∃ id, nameOf? declared id = some name := by
  obtain ⟨i, found⟩ := List.mem_iff_getElem?.1 h
  exact ⟨⟨i + 1⟩, nameOf?_eq_some_iff.2 ⟨i, rfl, found⟩⟩

/-- No name has two numbers. -/
theorem nameOf?_inj {declared : List Declaration} {id other : DocumentId} {name : String}
    (h : nameOf? declared id = some name) (h' : nameOf? declared other = some name) :
    id = other := by
  obtain ⟨i, rfl, found⟩ := nameOf?_eq_some_iff.1 h
  obtain ⟨j, rfl, found'⟩ := nameOf?_eq_some_iff.1 h'
  have lt : i < (names declared).length := (List.getElem?_eq_some_iff.1 found).1
  rw [(List.getElem?_inj lt (nodup_names declared)).1 (found.trans found'.symm)]

/-- Further declarations leave numbers as they are. -/
theorem nameOf?_append {declared : List Declaration} {id : DocumentId} {name : String}
    (h : nameOf? declared id = some name) (more : List Declaration) :
    nameOf? (declared ++ more) id = some name := by
  obtain ⟨i, rfl, found⟩ := nameOf?_eq_some_iff.1 h
  obtain ⟨rest, eq⟩ := names_prefix declared more
  refine nameOf?_eq_some_iff.2 ⟨i, rfl, ?_⟩
  rw [← eq, List.getElem?_append_left (List.getElem?_eq_some_iff.1 found).1, found]

/-- Names that were declared before keep their numbers. -/
theorem nameOf?_append_iff {declared : List Declaration} {id : DocumentId} {name : String}
    (known : name ∈ names declared) (more : List Declaration) :
    nameOf? (declared ++ more) id = some name ↔ nameOf? declared id = some name := by
  refine ⟨fun h => ?_, fun h => nameOf?_append h more⟩
  obtain ⟨own, found⟩ := exists_nameOf? known
  exact nameOf?_inj (nameOf?_append found more) h ▸ found

/-- A new name gets the next number. -/
theorem nameOf?_append_singleton {declared : List Declaration} {last : Declaration}
    (new : last.document.name ∉ names declared) (id : DocumentId) :
    nameOf? (declared ++ [last]) id =
      if id = ⟨(names declared).length + 1⟩ then some last.document.name
      else nameOf? declared id := by
  rcases id with ⟨_ | i⟩
  · simp [nameOf?]
  · simp only [nameOf?, names_append_singleton, if_neg new, Nat.succ_ne_zero, if_false,
      Nat.add_sub_cancel, DocumentId.mk.injEq, Nat.add_right_cancel_iff]
    rw [List.getElem?_append]
    by_cases lt : i < (names declared).length
    · rw [if_pos lt, if_neg (Nat.ne_of_lt lt)]
    · rw [if_neg lt]
      by_cases last : i = (names declared).length
      · simp [last]
      · rw [if_neg last, List.getElem?_eq_none (by simp; omega),
          List.getElem?_eq_none (Nat.le_of_not_lt lt)]

/-! ### Last declarations -/

/-- The last declaration is the latest one of its own name. -/
theorem latest?_append_singleton (declared : List Declaration) (last : Declaration)
    (name : String) :
    latest? (declared ++ [last]) name =
      if last.document.name = name then some last else latest? declared name := by
  rw [latest?, List.filter_append, List.getLast?_append]
  by_cases same : last.document.name = name
  · simp [same]
  · simp [same, latest?]

/-- The latest declaration of a name is one of those of the name. -/
theorem mem_of_latest? {declared : List Declaration} {name : String} {declaration : Declaration}
    (h : latest? declared name = some declaration) :
    declaration ∈ declared ∧ declaration.document.name = name := by
  simpa using List.mem_of_getLast? h

/-- Every declared name was declared last somewhere. -/
theorem exists_latest? {declared : List Declaration} {name : String}
    (h : name ∈ names declared) : ∃ declaration, latest? declared name = some declaration := by
  obtain ⟨declaration, mem, rfl⟩ := mem_names.1 h
  rw [latest?, List.getLast?_filter, ← Option.isSome_iff_exists, List.find?_isSome]
  exact ⟨declaration, List.mem_reverse.2 mem, by simp⟩

/-- If generations follow one another, no declaration of a name is in a later generation than its
last one. -/
theorem le_of_latest? {declared : List Declaration} {name : String} {latest other : Declaration}
    (ordered : declared.Pairwise (·.generation ≤ ·.generation))
    (h : latest? declared name = some latest) (mem : other ∈ declared)
    (same : other.document.name = name) : other.generation ≤ latest.generation := by
  obtain ⟨earlier, eq⟩ := List.getLast?_eq_some_iff.1 h
  have sorted := ordered.filter (·.document.name = name)
  have own : other ∈ earlier ++ [latest] := eq ▸ List.mem_filter.2 ⟨mem, by simpa using same⟩
  rw [eq, List.pairwise_append] at sorted
  rcases List.mem_append.1 own with own | own
  · exact sorted.2.2 other own latest (List.mem_singleton.2 rfl)
  · exact List.mem_singleton.1 own ▸ Nat.le_refl _

end Declaration

namespace DocumentRegistry

open Declaration

/-- A registry knows what declarations say. -/
structure Records (registry : DocumentRegistry) (declared : List Declaration) : Prop where
  /-- There are as many documents as names. -/
  size : registry.size = (names declared).length
  /-- A document is where its name was declared last. -/
  place : ∀ id, registry.place? id = ((nameOf? declared id).bind (latest? declared)).map (·.place)
  /-- The documents with some file name are those whose names end with it. -/
  group : ∀ path id, id ∈ (registry.group? path).getD [] ↔
    ∃ name, nameOf? declared id = some name ∧ groupKey name = groupKey path

/-- Nothing has been declared at first. -/
theorem records_empty : empty.Records [] where
  size := rfl
  place id := by simp [place?, empty, nameOf?, names]
  group path id := by simp [group?, empty, nameOf?, names]

section Reading

variable {registry : DocumentRegistry} {declared : List Declaration}
  {history : Nat → Option Metadata}

/-- A document is read where its name was declared last. -/
theorem Records.document?_eq (h : registry.Records declared) (readable : Readable history declared)
    (id : DocumentId) :
    registry.document? history id =
      ((nameOf? declared id).bind (latest? declared)).map (·.document) := by
  rw [document?, h.place]
  cases latest : (nameOf? declared id).bind (latest? declared) with
  | none => rfl
  | some declaration =>
      obtain ⟨name, -, found⟩ := Option.bind_eq_some_iff.1 latest
      obtain ⟨metadata, owned, read⟩ := readable declaration (mem_of_latest? found).1
      simp only [Option.map_some, Option.bind_eq_bind, Option.bind_some, Declaration.place, owned,
        read]

/-- **The path of a document is the name with its number.** -/
theorem Records.path?_eq (h : registry.Records declared) (readable : Readable history declared)
    (id : DocumentId) : registry.path? history id = nameOf? declared id := by
  rw [path?, h.document?_eq readable]
  cases named : nameOf? declared id with
  | none => rfl
  | some name =>
      obtain ⟨latest, found⟩ := exists_latest? (mem_names_of_nameOf? named)
      rw [Option.bind_some, found, Option.map_some, Option.map_some, (mem_of_latest? found).2]

/-- A declared name is the path of one of the documents with its file name. -/
theorem Records.find?_path? (h : registry.Records declared) (readable : Readable history declared)
    {id : DocumentId} {name : String} (named : nameOf? declared id = some name) :
    ((registry.group? name).getD []).find? (fun id => registry.path? history id = some name) =
      some id := by
  have mem : id ∈ (registry.group? name).getD [] := (h.group name id).2 ⟨name, named, rfl⟩
  simp only [h.path?_eq readable]
  cases eq : ((registry.group? name).getD []).find? fun id => nameOf? declared id = some name with
  | none => exact absurd (decide_eq_true named) (List.find?_eq_none.1 eq id mem)
  | some found =>
      have named' := List.find?_some eq
      rw [nameOf?_inj (of_decide_eq_true named') named]

/-- A name that is not declared is the path of no document. -/
theorem Records.find?_path?_eq_none (h : registry.Records declared)
    (readable : Readable history declared) {name : String} (new : name ∉ names declared) :
    ((registry.group? name).getD []).find? (fun id => registry.path? history id = some name) =
      none := by
  rw [List.find?_eq_none]
  intro id mem found
  rw [h.path?_eq readable, decide_eq_true_eq] at found
  exact new (mem_names_of_nameOf? found)

/-- **Looking a name up finds its number**, by whichever rule. -/
theorem Records.find?_eq (h : registry.Records declared) (readable : Readable history declared)
    {id : DocumentId} {name : String} (named : nameOf? declared id = some name) :
    registry.find? history name = some id := by
  have mem : id ∈ (registry.group? name).getD [] := (h.group name id).2 ⟨name, named, rfl⟩
  have own := h.find?_path? readable named
  rw [find?]
  cases group : registry.group? name with
  | none => simp [group] at mem
  | some ids =>
      rw [group, Option.getD_some] at mem own
      match ids with
      | [] => simp at mem
      | [only] => rw [List.mem_singleton.1 mem]
      | first :: second :: rest =>
          dsimp only
          rw [own]
          rfl

end Reading

/-! ### Declaring one document -/

/-- A document that is added has the next number, and the others stay. -/
theorem place?_add (registry : DocumentRegistry) (path : String) (place : DocumentPlace)
    (id : DocumentId) :
    (registry.add path place).1.place? id =
      if id = ⟨registry.size + 1⟩ then some place else registry.place? id := by
  rcases registry with ⟨places, groups⟩
  rcases id with ⟨_ | i⟩
  · simp [place?]
  · simp [place?, add, size, Array.getElem?_push]

/-- A document that is taken over has its new place, and the others stay. -/
theorem place?_move {registry : DocumentRegistry} {id : DocumentId} {old : DocumentPlace}
    (known : registry.place? id = some old) (place : DocumentPlace) (other : DocumentId) :
    (registry.move id place).place? other =
      if other = id then some place else registry.place? other := by
  rcases registry with ⟨places, groups⟩
  rcases id with ⟨_ | i⟩
  · simp [place?] at known
  · have lt : i < places.size := by
      simp only [place?, Nat.succ_ne_zero, if_false, Nat.add_sub_cancel] at known
      exact (Array.getElem?_eq_some_iff.1 known).1
    rcases other with ⟨_ | j⟩
    · simp [place?]
    · simp [place?, move, Array.getElem?_setIfInBounds, lt, eq_comm]

/-- A document that is added comes last in the group of its file name. -/
theorem getD_group?_add (registry : DocumentRegistry) (path other : String)
    (place : DocumentPlace) :
    ((registry.add path place).1.group? other).getD [] =
      if groupKey path = groupKey other then
        (registry.group? other).getD [] ++ [⟨registry.size + 1⟩]
      else (registry.group? other).getD [] := by
  rcases registry with ⟨places, groups⟩
  by_cases same : groupKey path = groupKey other
  · simp [group?, add, size, same, Std.HashMap.getD_eq_getD_getElem?]
  · simp [group?, add, same, Std.HashMap.getElem?_insert]

/-- Taking a document over does not change its group. -/
theorem group?_move (registry : DocumentRegistry) (id : DocumentId) (place : DocumentPlace)
    (path : String) : (registry.move id place).group? path = registry.group? path := rfl

section Declaring

variable {registry : DocumentRegistry} {declared : List Declaration}
  {history : Nat → Option Metadata} {last : Declaration}

/-- A document with a new name gets the next number. -/
theorem Records.add (h : registry.Records declared) (new : last.document.name ∉ names declared) :
    (registry.add last.document.name last.place).1.Records (declared ++ [last]) where
  size := by
    rw [size_add, h.size, names_append_singleton, if_neg new, List.length_append,
      List.length_singleton]
  place id := by
    rw [place?_add, nameOf?_append_singleton new, h.size]
    by_cases own : id = ⟨(names declared).length + 1⟩
    · rw [if_pos own, if_pos own, Option.bind_some, latest?_append_singleton, if_pos rfl,
        Option.map_some]
    · rw [if_neg own, if_neg own, h.place]
      cases named : nameOf? declared id with
      | none => rfl
      | some name =>
          have other : last.document.name ≠ name := fun eq =>
            new (eq ▸ mem_names_of_nameOf? named)
          rw [Option.bind_some, Option.bind_some, latest?_append_singleton, if_neg other]
  group path id := by
    rw [getD_group?_add, nameOf?_append_singleton new, h.size]
    have unnumbered : nameOf? declared ⟨(names declared).length + 1⟩ = none := by
      rw [Option.eq_none_iff_forall_ne_some]
      intro name named
      obtain ⟨i, eq, found⟩ := nameOf?_eq_some_iff.1 named
      have lt : i < (names declared).length := (List.getElem?_eq_some_iff.1 found).1
      rw [DocumentId.mk.injEq] at eq
      omega
    by_cases own : id = ⟨(names declared).length + 1⟩
    · have absent : id ∉ (registry.group? path).getD [] := by
        rw [h.group, own, unnumbered]
        simp
      by_cases same : groupKey last.document.name = groupKey path
      · simp [own, same]
      · rw [own] at absent
        simp [own, same, absent]
    · rw [if_neg own, ← h.group]
      split <;> simp [own]

/-- A document that is declared again is at the new place, and keeps its number. -/
theorem Records.move (h : registry.Records declared) {id : DocumentId}
    (named : nameOf? declared id = some last.document.name) :
    (registry.move id last.place).Records (declared ++ [last]) := by
  have known := mem_names_of_nameOf? named
  have same : names (declared ++ [last]) = names declared := by
    rw [names_append_singleton, if_pos known]
  have numbers : nameOf? (declared ++ [last]) = nameOf? declared := by
    funext other
    rw [nameOf?, nameOf?, same]
  obtain ⟨latest, found⟩ := exists_latest? known
  have placed : registry.place? id = some latest.place := by
    rw [h.place, named, Option.bind_some, found, Option.map_some]
  constructor
  · rw [size_move, h.size, same]
  · intro other
    rw [place?_move placed, numbers]
    by_cases own : other = id
    · rw [if_pos own, own, named, Option.bind_some, latest?_append_singleton, if_pos rfl,
        Option.map_some]
    · rw [if_neg own, h.place]
      cases named' : nameOf? declared other with
      | none => rfl
      | some name =>
          have different : last.document.name ≠ name := by
            rintro rfl
            exact own (nameOf?_inj named' named)
          rw [Option.bind_some, Option.bind_some, latest?_append_singleton, if_neg different]
  · intro path other
    rw [group?_move, numbers]
    exact h.group path other

variable (last)

/-- **A generation cannot declare a name twice.** -/
theorem Records.declare_of_twice (h : registry.Records declared)
    (readable : Readable history declared)
    (ordered : declared.Pairwise (·.generation ≤ ·.generation))
    (bounded : ∀ declaration ∈ declared, declaration.generation ≤ last.generation)
    {other : Declaration} (mem : other ∈ declared) (again : other.generation = last.generation)
    (same : other.document.name = last.document.name) :
    registry.declare last.generation history last.document =
      .error (.identityConflict (.documentTwice last.document.name last.generation)) := by
  have known : last.document.name ∈ names declared := mem_names.2 ⟨other, mem, same⟩
  obtain ⟨id, named⟩ := exists_nameOf? known
  obtain ⟨latest, found⟩ := exists_latest? known
  have generation : latest.generation = last.generation := Nat.le_antisymm
    (bounded latest (mem_of_latest? found).1) (again ▸ le_of_latest? ordered found mem same)
  have placed : (registry.place? id).map (·.generation) = some last.generation := by
    rw [h.place, named, Option.bind_some, found, Option.map_some, Option.map_some,
      Declaration.place, generation]
  rw [declare, h.find?_path? readable named]
  exact if_pos placed

/-- **Any other document can be declared**, and the registry then knows of that too. -/
theorem Records.exists_declare (h : registry.Records declared)
    (readable : Readable history declared)
    (once : ∀ other ∈ declared, other.generation = last.generation →
      other.document.name ≠ last.document.name) :
    ∃ new id, registry.declare last.generation history last.document = .ok (new, id) ∧
      new.Records (declared ++ [last]) ∧
      nameOf? (declared ++ [last]) id = some last.document.name := by
  by_cases known : last.document.name ∈ names declared
  · obtain ⟨id, named⟩ := exists_nameOf? known
    obtain ⟨latest, found⟩ := exists_latest? known
    obtain ⟨mem, same⟩ := mem_of_latest? found
    have placed : (registry.place? id).map (·.generation) ≠ some last.generation := by
      rw [h.place, named, Option.bind_some, found, Option.map_some, Option.map_some,
        Declaration.place, ne_eq, Option.some.injEq]
      exact fun again => once latest mem again same
    refine ⟨registry.move id last.place, id, ?_, h.move named, nameOf?_append named _⟩
    rw [declare, h.find?_path? readable named]
    exact if_neg placed
  · refine ⟨_, ⟨registry.size + 1⟩, ?_, h.add known, ?_⟩
    · rw [declare, h.find?_path?_eq_none readable known]
      rfl
    · rw [nameOf?_append_singleton known, h.size, if_pos rfl]

end Declaring

/-! ### Declaring the documents of a generation -/

/-- Some documents of a generation are taken in, on top of what was declared before. -/
structure TakenIn (generation : Nat) (declared : List Declaration) (documents : List Document)
    (progress : Progress) : Prop where
  /-- The registry knows what they say. -/
  records : progress.1.Records (declared ++ documents.map (Declaration.mk generation))
  /-- Their rows have the numbers of their names. -/
  ids : ∀ row id, progress.2[row]? = some id ↔ ∃ document ∈ documents, document.rid = row ∧
    nameOf? (declared ++ documents.map (Declaration.mk generation)) id = some document.name

section Update

variable {generation : Nat} {declared : List Declaration} {history : Nat → Option Metadata}
  {documents : List Document} {document : Document} {progress : Progress}

/-- A document with a name that the generation has not declared yet is taken in. -/
theorem TakenIn.exists_next (h : TakenIn generation declared documents progress)
    (readable : Readable history (declared ++ documents.map (Declaration.mk generation)))
    (earlier : ∀ declaration ∈ declared, declaration.generation < generation)
    (fresh : document.rid ∉ documents.map (·.rid)) (once : document.name ∉ documents.map (·.name)) :
    ∃ next, declareNext generation history progress document = .ok next ∧
      TakenIn generation declared (documents ++ [document]) next := by
  obtain ⟨new, id, step, records, named⟩ :=
    h.records.exists_declare ⟨generation, document⟩ readable (by
      intro other mem again same
      rcases List.mem_append.1 mem with mem | mem
      · exact Nat.ne_of_lt (earlier other mem) again
      · obtain ⟨twin, twin_mem, rfl⟩ := List.mem_map.1 mem
        exact once (List.mem_map.2 ⟨twin, twin_mem, same⟩))
  have all : declared ++ (documents ++ [document]).map (Declaration.mk generation) =
      declared ++ documents.map (Declaration.mk generation) ++ [⟨generation, document⟩] := by
    rw [List.map_append, List.append_assoc]
    rfl
  refine ⟨(new, progress.2.insert document.rid id), ?_, ?_, ?_⟩
  · exact Outcome.bind_eq_ok_iff.2 ⟨_, step, rfl⟩
  · rw [all]
    exact records
  · intro row other
    rw [all, Std.HashMap.getElem?_insert]
    by_cases own : document.rid = row
    · subst own
      rw [if_pos (by simp), Option.some.injEq]
      constructor
      · rintro rfl
        exact ⟨document, List.mem_append_right _ (List.mem_singleton.2 rfl), rfl, named⟩
      · rintro ⟨found, mem, same, named'⟩
        rcases List.mem_append.1 mem with mem | mem
        · exact absurd (same ▸ List.mem_map_of_mem mem) fresh
        · exact nameOf?_inj named (List.mem_singleton.1 mem ▸ named')
    · rw [if_neg (by simpa using own), h.ids]
      refine exists_congr fun found => ?_
      rw [List.mem_append, List.mem_singleton]
      constructor
      · rintro ⟨mem, rid, named'⟩
        exact ⟨.inl mem, rid, nameOf?_append named' _⟩
      · rintro ⟨mem | rfl, rid, named'⟩
        · refine ⟨mem, rid, (nameOf?_append_iff ?_ _).1 named'⟩
          refine mem_names.2 ⟨⟨generation, found⟩, ?_, rfl⟩
          exact List.mem_append_right _ (List.mem_map_of_mem mem)
        · exact absurd rid own

/-- A document with a name that the generation has declared already is refused. -/
theorem TakenIn.next_of_twice (h : TakenIn generation declared documents progress)
    (readable : Readable history (declared ++ documents.map (Declaration.mk generation)))
    (ordered : declared.Pairwise (·.generation ≤ ·.generation))
    (earlier : ∀ declaration ∈ declared, declaration.generation < generation)
    (twice : document.name ∈ documents.map (·.name)) :
    declareNext generation history progress document =
      .error (.identityConflict (.documentTwice document.name generation)) := by
  obtain ⟨twin, mem, same⟩ := List.mem_map.1 twice
  have bounded : ∀ declaration ∈ declared ++ documents.map (Declaration.mk generation),
      declaration.generation ≤ generation := by
    intro declaration mem
    rcases List.mem_append.1 mem with mem | mem
    · exact Nat.le_of_lt (earlier declaration mem)
    · obtain ⟨other, -, rfl⟩ := List.mem_map.1 mem
      exact Nat.le_refl _
  have sorted : (declared ++ documents.map (Declaration.mk generation)).Pairwise
      (·.generation ≤ ·.generation) := by
    refine List.pairwise_append.2 ⟨ordered, ?_, ?_⟩
    · exact List.pairwise_map.2 (List.pairwise_of_forall fun _ _ => Nat.le_refl _)
    · intro declaration mem other other_mem
      obtain ⟨other, -, rfl⟩ := List.mem_map.1 other_mem
      exact Nat.le_of_lt (earlier declaration mem)
  have refused := h.records.declare_of_twice ⟨generation, document⟩ readable sorted
    bounded (List.mem_append_right _ (List.mem_map_of_mem mem)) rfl same
  rw [declareNext, refused]
  rfl

/-- Taking in documents of a generation one by one, of which no two have the same number, goes on
until a name comes up for the second time. -/
theorem TakenIn.foldlM_cases {rest : List Document}
    (h : TakenIn generation declared documents progress)
    (readable : Readable history (declared ++ (documents ++ rest).map (Declaration.mk generation)))
    (ordered : declared.Pairwise (·.generation ≤ ·.generation))
    (earlier : ∀ declaration ∈ declared, declaration.generation < generation)
    (rids : ((documents ++ rest).map (·.rid)).Nodup) (distinct : (documents.map (·.name)).Nodup) :
    (((documents ++ rest).map (·.name)).Nodup ∧
      ∃ new, rest.foldlM (declareNext generation history) progress = .ok new ∧
        TakenIn generation declared (documents ++ rest) new) ∨
    ∃ name, List.Duplicate name ((documents ++ rest).map (·.name)) ∧
      rest.foldlM (declareNext generation history) progress =
        .error (.identityConflict (.documentTwice name generation)) := by
  induction rest generalizing documents progress with
  | nil =>
      rw [List.append_nil]
      exact .inl ⟨distinct, progress, rfl, h⟩
  | cons document rest ih =>
      have readable_done :
          Readable history (declared ++ documents.map (Declaration.mk generation)) := by
        intro declaration mem
        refine readable declaration ?_
        rw [List.map_append, ← List.append_assoc]
        exact List.mem_append_left _ mem
      rw [List.append_cons] at readable rids ⊢
      rw [List.foldlM_cons]
      by_cases twice : document.name ∈ documents.map (·.name)
      · refine .inr ⟨document.name, ?_, ?_⟩
        · rw [List.map_append, List.map_append, List.map_singleton]
          refine List.Duplicate.mono_sublist ?_ (List.sublist_append_left _ _)
          rw [List.duplicate_iff_two_le_count, List.count_append, List.count_singleton_self]
          have := List.one_le_count_iff.2 twice
          omega
        · rw [h.next_of_twice readable_done ordered earlier twice]
          rfl
      · have fresh : document.rid ∉ documents.map (·.rid) := by
          rw [List.map_append, List.map_append, List.map_singleton, List.nodup_append,
            List.nodup_append] at rids
          exact fun mem => rids.1.2.2 _ mem _ (List.mem_singleton.2 rfl) rfl
        have distinct : ((documents ++ [document]).map (·.name)).Nodup := by
          rw [List.map_append, List.map_singleton, List.nodup_append]
          refine ⟨distinct, List.nodup_singleton _, fun name mem other other_mem eq => ?_⟩
          exact twice (List.mem_singleton.1 other_mem ▸ eq ▸ mem)
        obtain ⟨next, step, taken⟩ := h.exists_next readable_done earlier fresh twice
        rw [step]
        exact ih taken readable rids distinct

end Update

/-- **Taking in the documents of a generation** fails exactly if a name is declared twice. -/
theorem Records.update_cases {registry : DocumentRegistry} {declared : List Declaration}
    (h : registry.Records declared) {history : Nat → Option Metadata}
    (readable : Readable history declared)
    (ordered : declared.Pairwise (·.generation ≤ ·.generation)) {generation : Nat}
    (earlier : ∀ declaration ∈ declared, declaration.generation < generation)
    {metadata : Metadata} (numbered : metadata.Numbered) :
    ((metadata.documents.toList.map (·.name)).Nodup ∧
      ∃ new, registry.update metadata generation history = .ok new ∧
        TakenIn generation declared metadata.documents.toList new) ∨
    ∃ name, List.Duplicate name (metadata.documents.toList.map (·.name)) ∧
      registry.update metadata generation history =
        .error (.identityConflict (.documentTwice name generation)) := by
  have start : TakenIn generation declared [] (registry, ∅) :=
    ⟨by simpa using h, by simp⟩
  refine start.foldlM_cases ?_ ordered earlier numbered.nodup_rid_documents List.nodup_nil
  intro declaration mem
  rcases List.mem_append.1 mem with mem | mem
  · rw [withGeneration, if_neg (Nat.ne_of_lt (earlier declaration mem))]
    exact readable declaration mem
  · obtain ⟨document, known, rfl⟩ := List.mem_map.1 mem
    exact ⟨metadata, if_pos rfl, numbered.document?_rid (Array.mem_toList_iff.1 known)⟩

end DocumentRegistry

end SymbolHistory
