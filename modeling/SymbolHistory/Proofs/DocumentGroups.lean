import SymbolHistory.Proofs.DocumentRegistry

/-!
# Groups of documents

Documents are grouped by their file names without regard to case. Whatever generations declare, a
group has all documents with its file name, in the order of their numbers: a new document gets the
greatest number and goes to the end of its group, and one that is declared again was found in the
group that it stays in. What lower case is makes no difference to that.

## Main definitions

* `DocumentRegistry.sharing` : the documents with a file name.
* `DocumentRegistry.Grouped` : documents are grouped by their file names.

## Main results

* `DocumentRegistry.Grouped.declare`, `DocumentRegistry.Grouped.update` : declaring documents keeps
  groups.
* `DocumentRegistry.find?_of_group?` : rules are the same for all groups, also those with one
  document.
-/

namespace SymbolHistory

namespace DocumentRegistry

/-- The documents with a file name that is `key` in lower case, in the order of their numbers. -/
def sharing (registry : DocumentRegistry) (key : String) : List DocumentId :=
  registry.ids.filter fun id =>
    (registry.place? id).any fun place => Text.lowercase place.fileName = key

/-- Documents are grouped by their file names. -/
structure Grouped (registry : DocumentRegistry) : Prop where
  /-- A group has all documents with its file name, in the order of their numbers. -/
  getD_groups : ∀ key, registry.groups.getD key [] = registry.sharing key
  /-- No group is without documents. -/
  ne_nil : ∀ key : String, registry.groups[key]? ≠ some []

/-- There is a group for every file name that a document has. -/
theorem Grouped.getElem?_eq_some_iff {registry : DocumentRegistry} (h : registry.Grouped)
    {key : String} {group : List DocumentId} :
    registry.groups[key]? = some group ↔ group ≠ [] ∧ group = registry.sharing key := by
  rw [← h.getD_groups, Std.HashMap.getD_eq_getD_getElem?]
  cases found : registry.groups[key]? with
  | none => simp
  | some own =>
      have ne_nil : own ≠ [] := fun eq => h.ne_nil key (eq ▸ found)
      rw [Option.getD_some, Option.some.injEq]
      constructor
      · rintro rfl
        exact ⟨ne_nil, rfl⟩
      · rintro ⟨-, rfl⟩
        rfl

/-- The group of a path has the documents with its file name. -/
theorem Grouped.getD_group? {registry : DocumentRegistry} (h : registry.Grouped) (path : String) :
    (registry.group? path).getD [] = registry.sharing (groupKey path) := by
  rw [group?, ← Std.HashMap.getD_eq_getD_getElem?]
  exact h.getD_groups _

theorem grouped_empty : empty.Grouped where
  getD_groups key := by simp [empty, sharing, ids, size]
  ne_nil key := by simp [empty]

/-! ### Declaring documents -/

section Declaring

variable {registry new : DocumentRegistry} {id : DocumentId} {path key : String}
  {place old : DocumentPlace}

/-- No document has a greater number than there are documents. -/
theorem val_le_size (mem : id ∈ registry.ids) : id.val ≤ registry.size := by
  rw [ids, List.mem_map] at mem
  obtain ⟨i, lt, rfl⟩ := mem
  exact List.mem_range.1 lt

/-- Documents come in the order of their numbers. -/
theorem pairwise_ids (registry : DocumentRegistry) : registry.ids.Pairwise (·.val < ·.val) := by
  rw [ids, List.pairwise_map]
  exact List.pairwise_lt_range.imp fun lt => Nat.succ_lt_succ lt

/-- A new document comes behind the others with its file name. -/
theorem sharing_add (registry : DocumentRegistry) (path key : String) (place : DocumentPlace) :
    (registry.add path place).1.sharing key =
      if Text.lowercase place.fileName = key then registry.sharing key ++ [⟨registry.size + 1⟩]
      else registry.sharing key := by
  have numbers : (registry.add path place).1.ids = registry.ids ++ [⟨registry.size + 1⟩] := by
    rw [ids, ids, size_add, List.range_succ, List.map_append, List.map_singleton]
  have others : registry.ids.filter (fun id =>
      ((registry.add path place).1.place? id).any fun own => Text.lowercase own.fileName = key) =
      registry.sharing key := by
    refine List.filter_congr fun id mem => ?_
    have other : id ≠ ⟨registry.size + 1⟩ := by
      rintro rfl
      exact Nat.not_succ_le_self _ (val_le_size mem)
    rw [place?_add, if_neg other]
  rw [sharing, numbers, List.filter_append, others, List.filter_singleton, place?_add, if_pos rfl,
    Option.any_some]
  by_cases own : Text.lowercase place.fileName = key
  · rw [if_pos own, decide_eq_true own, cond_true]
  · rw [if_neg own, decide_eq_false own, cond_false, List.append_nil]

/-- A document that moves keeps its group if its file name stays the same but for case. -/
theorem sharing_move (known : registry.place? id = some old)
    (same : Text.lowercase place.fileName = Text.lowercase old.fileName) (key : String) :
    (registry.move id place).sharing key = registry.sharing key := by
  have numbers : (registry.move id place).ids = registry.ids := by
    rw [ids, ids, size_move]
  rw [sharing, numbers]
  refine List.filter_congr fun other _ => ?_
  rw [place?_move known]
  by_cases own : other = id
  · rw [if_pos own, own, known, Option.any_some, Option.any_some, same]
  · rw [if_neg own]

/-- A new document is in the group of its file name. -/
theorem Grouped.add (h : registry.Grouped) (named : place.fileName = Text.fileName path) :
    (registry.add path place).1.Grouped where
  getD_groups key := by
    rw [sharing_add, named, ← groupKey, ← h.getD_groups]
    refine Std.HashMap.getD_insert.trans ?_
    by_cases own : groupKey path = key
    · rw [if_pos (beq_iff_eq.2 own), if_pos own, ← own]
      rfl
    · rw [if_neg (beq_iff_eq.not.2 own), if_neg own]
  ne_nil key := by
    change (registry.groups.insert (groupKey path) _)[key]? ≠ some []
    rw [Std.HashMap.getElem?_insert]
    split
    · simp
    · exact h.ne_nil key

/-- Declaring a document moves one with its file name, or adds it. -/
theorem declare_cases {generation : Nat} {history : Nat → Option Metadata} {document : Document}
    (eq : registry.declare generation history document = .ok (new, id)) :
    (id ∈ (registry.group? document.name).getD [] ∧
      new = registry.move id (Declaration.mk generation document).place) ∨
    new = (registry.add document.name (Declaration.mk generation document).place).1 := by
  rw [declare] at eq
  split at eq
  · next found known =>
    split at eq
    · cases eq
    · cases eq
      exact .inl ⟨List.mem_of_find?_eq_some known, rfl⟩
  · cases eq
    exact .inr rfl

/-- **Declaring a document** keeps groups, whatever it is called. -/
theorem Grouped.declare (h : registry.Grouped) {generation : Nat}
    {history : Nat → Option Metadata} {document : Document}
    (eq : registry.declare generation history document = .ok (new, id)) : new.Grouped := by
  rcases declare_cases eq with ⟨mem, rfl⟩ | rfl
  · -- The document was found in the group of its name, so that its file name was that one.
    rw [h.getD_group?, sharing, List.mem_filter, Option.any_eq_true] at mem
    obtain ⟨-, old, known, same⟩ := mem
    have unchanged : ∀ key, (registry.move id (Declaration.mk generation document).place).sharing
        key = registry.sharing key := sharing_move known (of_decide_eq_true same).symm
    exact ⟨fun key => (h.getD_groups key).trans (unchanged key).symm, h.ne_nil⟩
  · exact h.add rfl

/-- So does taking in the next document of a generation. -/
theorem Grouped.declareNext {generation : Nat} {history : Nat → Option Metadata}
    {progress next : Progress} {document : Document} (h : progress.1.Grouped)
    (eq : declareNext generation history progress document = .ok next) : next.1.Grouped := by
  obtain ⟨⟨declared, id⟩, declares, pure_eq⟩ := Outcome.bind_eq_ok_iff.1 eq
  cases pure_eq
  exact h.declare declares

/-- And so does taking in one after the other. -/
theorem Grouped.foldlM {generation : Nat} {history : Nat → Option Metadata}
    {documents : List Document} {progress last : Progress} (h : progress.1.Grouped)
    (eq : documents.foldlM (DocumentRegistry.declareNext generation history) progress = .ok last) :
    last.1.Grouped := by
  induction documents generalizing progress with
  | nil =>
      cases eq
      exact h
  | cons document documents ih =>
      rw [List.foldlM_cons] at eq
      obtain ⟨next, step, rest⟩ := Outcome.bind_eq_ok_iff.1 eq
      exact ih (h.declareNext step) rest

/-- **Taking in the documents of a generation** keeps groups. -/
theorem Grouped.update (h : registry.Grouped) {metadata : Metadata} {generation : Nat}
    {history : Nat → Option Metadata} {ids : Std.HashMap UInt32 DocumentId}
    (eq : registry.update metadata generation history = .ok (new, ids)) : new.Grouped := by
  rw [DocumentRegistry.update] at eq
  exact Grouped.foldlM h eq

end Declaring

/-! ### Searching a group -/

/-- The smallest of ascending numbers is the first one. -/
theorem smallest?_eq_head? {ids : List DocumentId} (ascending : ids.Pairwise (·.val < ·.val)) :
    smallest? ids = ids.head? := by
  have least : (ids.map (·.val)).Pairwise fun a b => min a b = a :=
    List.pairwise_map.2 (ascending.imp fun lt => Nat.min_eq_left (Nat.le_of_lt lt))
  rw [smallest?, List.min?_eq_head? least, List.head?_map, Option.map_map]
  exact congrFun Option.map_id _

/-- A search that starts with one candidate ends with it, if nothing else can be found later. -/
theorem find?_singleton_orElse {only : DocumentId} {rest : Option DocumentId}
    (p : DocumentId → Bool) (h : rest = some only) : ([only].find? p <|> rest) = some only := by
  rw [List.find?_singleton, h]
  split <;> rfl

/-- **Rules are the same for all groups.** Where they are not asked, because a group has only one
document, they come to that one. -/
theorem find?_of_group? {registry : DocumentRegistry} {path : String} {group : List DocumentId}
    (found : registry.group? path = some group) (history : Nat → Option Metadata) :
    registry.find? history path =
      ((group.find? fun id => registry.path? history id = some path)
        <|> (group.find? fun id => (registry.path? history id).any fun other =>
          Text.lowercase other = Text.lowercase path)
        <|> (group.find? fun id => (registry.place? id).any fun place =>
          place.fileName = Text.fileName path)
        <|> smallest? group) := by
  rw [find?, found]
  split
  · next eq => cases eq
  · next only eq =>
    obtain rfl := Option.some.inj eq
    have first : smallest? [only] = some only := smallest?_eq_head? (List.pairwise_singleton _ _)
    exact (find?_singleton_orElse _ (find?_singleton_orElse _
      (find?_singleton_orElse _ first))).symm
  · next group' _ eq =>
    obtain rfl := Option.some.inj eq
    rfl

/-- A path without a group stands for nothing. -/
theorem find?_of_group?_eq_none {registry : DocumentRegistry} {path : String}
    (missing : registry.group? path = none) (history : Nat → Option Metadata) :
    registry.find? history path = none := by
  rw [find?, missing]

end DocumentRegistry

end SymbolHistory
