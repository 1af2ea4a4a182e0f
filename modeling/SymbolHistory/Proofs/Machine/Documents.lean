import SymbolHistory.Proofs.Machine.Rows
import SymbolHistory.DocumentRegistry
import SymbolHistory.Proofs.Outcome

/-!
# Document identities on a machine

A machine cuts the file name out of a path at a place that is counted in bytes, which must not lie
inside a character. It writes the place of a document that is declared again into an array, and
counts documents in 32 bits.

## Main definitions

* `cutText`, `fileName` : text from a byte on, and the last component of a path.
* `updateDocuments`, `findDocument` : takes in documents, and looks one up.
* `RoomForDocuments` : 32 bits are enough to count the documents.

## Main results

* `fileName_eq` : a file name is always cut between characters.
* `updateDocuments_eq`, `findDocument_eq` : a machine does what the library does.
-/

namespace SymbolHistory.Machine

open DocumentRegistry (Progress groupKey)

/-! ### File names -/

/-- The characters from a byte on, if a character starts there or the text ends there. -/
def dropBytes : List Char → Nat → Option (List Char)
  | text, 0 => some text
  | [], _ + 1 => none
  | c :: text, bytes + 1 =>
    if c.utf8Size ≤ bytes + 1 then dropBytes text (bytes + 1 - c.utf8Size) else none

@[simp] theorem dropBytes_zero (text : List Char) : dropBytes text 0 = some text := by
  cases text <;> rfl

/-- Text from a byte on. -/
def cutText (text : String) (start : Nat) : Exec String :=
  match dropBytes text.toList start with
  | some rest => pure (String.ofList rest)
  | none => stuck (.slice start text.utf8ByteSize text.utf8ByteSize)

/-- The byte that the last separator is. -/
def lastSeparator? : List Char → Option Nat
  | [] => none
  | c :: text =>
    match lastSeparator? text with
    | some place => some (c.utf8Size + place)
    | none => if Text.isPathSeparator c then some 0 else none

/-- The last component of a path. -/
def fileName (path : String) : Exec String := do
  match lastSeparator? path.toList with
  | none => return path
  | some place => cutText path (← add UInt64.size place 1)

/-- The characters behind the last separator. -/
def lastComponent (text : List Char) : List Char :=
  (text.reverse.takeWhile fun c => !Text.isPathSeparator c).reverse

/-- The last component does not change in front of a separator, and goes on in front of it if there
is none. -/
theorem lastComponent_cons (c : Char) (text : List Char) :
    lastComponent (c :: text) =
      if text.any Text.isPathSeparator then lastComponent text
      else if Text.isPathSeparator c then text else c :: text := by
  unfold lastComponent
  rw [List.reverse_cons]
  cases found : text.any Text.isPathSeparator with
  | false =>
      have plain : ∀ c ∈ text.reverse, (!Text.isPathSeparator c) = true := by
        intro c mem
        simpa using List.any_eq_false.1 found c (List.mem_reverse.1 mem)
      rw [List.takeWhile_append_of_pos plain, if_neg Bool.false_ne_true, List.takeWhile_cons]
      cases Text.isPathSeparator c <;> simp
  | true =>
      obtain ⟨separator, mem, holds⟩ := List.any_eq_true.1 found
      rw [List.takeWhile_append, if_neg, if_pos rfl]
      intro length
      have same := (List.takeWhile_prefix _).eq_of_length length
      have plain := List.all_eq_true.1 List.all_takeWhile separator
        (same ▸ List.mem_reverse.2 mem)
      rw [holds] at plain
      cases plain

/-- Without a separator there is one component. -/
theorem lastComponent_eq_self {text : List Char} (plain : text.any Text.isPathSeparator = false) :
    lastComponent text = text := by
  cases text with
  | nil => rfl
  | cons c text =>
      rw [List.any_cons, Bool.or_eq_false_iff] at plain
      rw [lastComponent_cons, plain.1, plain.2]
      rfl

/-- Without a separator there is none to be found. -/
theorem any_of_lastSeparator?_eq_none {text : List Char} (h : lastSeparator? text = none) :
    text.any Text.isPathSeparator = false := by
  induction text with
  | nil => rfl
  | cons c text ih =>
      rw [lastSeparator?] at h
      split at h
      · cases h
      · next none =>
        rw [List.any_cons, ih none, Bool.or_false]
        simpa using h

/-- A separator takes one byte. -/
theorem utf8Size_of_isPathSeparator {c : Char} (h : Text.isPathSeparator c) : c.utf8Size = 1 := by
  simp only [Text.isPathSeparator, Bool.or_eq_true, beq_iff_eq] at h
  obtain (rfl | rfl) | rfl := h <;> rfl

/-- **Behind the last separator the last component starts.** -/
theorem dropBytes_of_lastSeparator? {text : List Char} {place : Nat}
    (h : lastSeparator? text = some place) :
    text.any Text.isPathSeparator ∧ place < (String.ofList text).utf8ByteSize ∧
      dropBytes text (place + 1) = some (lastComponent text) := by
  induction text generalizing place with
  | nil => cases h
  | cons c text ih =>
      have size : (String.ofList (c :: text)).utf8ByteSize =
          c.utf8Size + (String.ofList text).utf8ByteSize := by
        rw [String.ofList_cons, String.utf8ByteSize_append, String.utf8ByteSize_singleton]
      rw [lastSeparator?] at h
      rw [lastComponent_cons, size, List.any_cons]
      split at h
      · next place' found =>
        cases h
        obtain ⟨any, lt, dropped⟩ := ih found
        refine ⟨by rw [any, Bool.or_true], by omega, ?_⟩
        rw [dropBytes, if_pos (by omega), if_pos any,
          show c.utf8Size + place' + 1 - c.utf8Size = place' + 1 by omega, dropped]
      · next none =>
        split at h
        · next separator =>
          cases h
          have one := utf8Size_of_isPathSeparator separator
          refine ⟨by rw [separator, Bool.true_or], by omega, ?_⟩
          rw [dropBytes, if_pos (by omega), one, any_of_lastSeparator?_eq_none none,
            if_pos separator, Nat.zero_add, Nat.sub_self, dropBytes_zero,
            if_neg Bool.false_ne_true]
        · cases h

/-- **A machine cuts a file name out of every path that fits into memory.** -/
theorem fileName_eq {path : String} (fits : path.utf8ByteSize < objectBound) :
    fileName path = pure (Text.fileName path) := by
  have same : Text.fileName path = String.ofList (lastComponent path.toList) := rfl
  unfold fileName
  rw [same]
  cases found : lastSeparator? path.toList with
  | none =>
      rw [lastComponent_eq_self (any_of_lastSeparator?_eq_none found), String.ofList_toList]
  | some place =>
      obtain ⟨-, lt, dropped⟩ := dropBytes_of_lastSeparator? found
      rw [String.ofList_toList] at lt
      have small : place + 1 < UInt64.size := by
        simp only [objectBound, UInt64.size] at *
        omega
      dsimp only
      rw [add_of_lt small, pure_bind, cutText, dropped]

/-! ### Taking documents in -/

/-- Takes in a document that `generation` declares. -/
def declareDocument (generation : Nat) (history : Nat → Option Metadata)
    (registry : DocumentRegistry) (document : Document) :
    Exec (DocumentRegistry × DocumentId) := do
  let name ← fileName document.name
  let key := Text.lowercase name
  let place := ⟨document.rid, generation, name⟩
  let group := registry.groups.getD key []
  match group.find? fun id => registry.path? history id = some document.name with
  | some id =>
    if (registry.place? id).map (·.generation) = some generation then
      fail (.identityConflict (.documentTwice document.name generation))
    else
      return (⟨← store registry.places (id.val - 1) place, registry.groups⟩, id)
  | none =>
    let number ← add UInt32.size (registry.places.size % UInt32.size) 1
    return (⟨registry.places.push place, registry.groups.insert key (group ++ [⟨number⟩])⟩,
      ⟨number⟩)

/-- Takes in the next document that `generation` declares. -/
def declareNext (generation : Nat) (history : Nat → Option Metadata) (progress : Progress)
    (document : Document) : Exec Progress := do
  let (registry, ids) := progress
  let (registry, id) ← declareDocument generation history registry document
  return (registry, ids.insert document.rid id)

/-- Takes in the documents of a generation. Also says which documents its rows are. -/
def updateDocuments (registry : DocumentRegistry) (metadata : Metadata) (generation : Nat)
    (history : Nat → Option Metadata) : Exec Progress :=
  metadata.documents.toList.foldlM
    (declareNext generation (DocumentRegistry.withGeneration history generation metadata))
    (registry, ∅)

/-- A document with a path has a place. -/
theorem lt_of_path? {registry : DocumentRegistry} {history : Nat → Option Metadata}
    {id : DocumentId} {name : String} (h : registry.path? history id = some name) :
    id.val - 1 < registry.places.size := by
  obtain ⟨document, found, -⟩ := Option.map_eq_some_iff.1 h
  obtain ⟨place, known, -⟩ := Option.bind_eq_some_iff.1 found
  rw [DocumentRegistry.place?] at known
  split at known
  · cases known
  · exact (Array.getElem?_eq_some_iff.1 known).1

theorem declareDocument_eq {generation : Nat} {history : Nat → Option Metadata}
    {registry : DocumentRegistry} {document : Document}
    (fits : document.name.utf8ByteSize < objectBound)
    (room : ∀ new id, registry.declare generation history document = .ok (new, id) →
      new.size < UInt32.size) :
    declareDocument generation history registry document =
      ofExcept (registry.declare generation history document) := by
  have group : (registry.group? document.name).getD [] =
      registry.groups.getD (Text.lowercase (Text.fileName document.name)) [] :=
    (Std.HashMap.getD_eq_getD_getElem?).symm
  unfold declareDocument
  rw [fileName_eq fits, pure_bind]
  unfold DocumentRegistry.declare at room ⊢
  rw [group] at room ⊢
  dsimp only at room ⊢
  cases found : List.find? (fun id => decide (registry.path? history id = some document.name))
      (registry.groups.getD (Text.lowercase (Text.fileName document.name)) []) with
  | some id =>
      have path := List.find?_some found
      have lt := lt_of_path? (of_decide_eq_true path)
      dsimp only
      rw [ofExcept_ite, store_of_lt _ lt]
      split
      · rfl
      · rw [pure_bind, ofExcept_ok, DocumentRegistry.move, Array.setIfInBounds, dif_pos lt]
  | none =>
      rw [found] at room
      have grown : registry.places.size + 1 < UInt32.size := by
        simpa [DocumentRegistry.size] using room _ _ rfl
      dsimp only
      rw [Nat.mod_eq_of_lt (by omega), add_of_lt grown]
      rfl

/-- 32 bits are enough to count the documents that are known while those of a generation are taken
in, however many of them are. -/
def RoomForDocuments (registry : DocumentRegistry) (metadata : Metadata) (generation : Nat)
    (history : Nat → Option Metadata) : Prop :=
  ∀ documents new ids, documents <+: metadata.documents.toList →
    documents.foldlM (DocumentRegistry.declareNext generation
      (DocumentRegistry.withGeneration history generation metadata)) (registry, ∅) =
        .ok (new, ids) →
    new.size < UInt32.size

section Folds

variable {generation : Nat} {history : Nat → Option Metadata}

theorem foldlM_declareNext {documents : List Document}
    (fits : ∀ document ∈ documents, document.name.utf8ByteSize < objectBound) {progress : Progress}
    (room : ∀ some new ids, some <+: documents →
      some.foldlM (DocumentRegistry.declareNext generation history) progress = .ok (new, ids) →
      new.size < UInt32.size) :
    documents.foldlM (declareNext generation history) progress =
      ofExcept (documents.foldlM (DocumentRegistry.declareNext generation history) progress) := by
  induction documents generalizing progress with
  | nil => rfl
  | cons document documents ih =>
      obtain ⟨registry, ids⟩ := progress
      have first : declareDocument generation history registry document =
          ofExcept (registry.declare generation history document) := by
        refine declareDocument_eq (fits document List.mem_cons_self) fun new id declared => ?_
        refine room [document] new (ids.insert document.rid id) (List.prefix_append [document] _) ?_
        rw [List.foldlM_cons, DocumentRegistry.declareNext, declared]
        rfl
      rw [List.foldlM_cons, List.foldlM_cons, declareNext, DocumentRegistry.declareNext, first]
      cases declared : registry.declare generation history document with
      | error e => rfl
      | ok result =>
          refine ih (fun other mem => fits other (List.mem_cons_of_mem _ mem))
            fun some new ids' front taken => ?_
          refine room (document :: some) new ids' ((List.prefix_cons_inj document).2 front) ?_
          rw [List.foldlM_cons, DocumentRegistry.declareNext, declared]
          exact taken

/-- A document that is taken in is at most one more. -/
theorem size_of_declare {registry new : DocumentRegistry} {document : Document} {id : DocumentId}
    (h : registry.declare generation history document = .ok (new, id)) :
    registry.size ≤ new.size ∧ new.size ≤ registry.size + 1 := by
  unfold DocumentRegistry.declare at h
  dsimp only at h
  split at h
  · split at h
    · cases h
    · cases h
      rw [DocumentRegistry.size_move]
      exact ⟨Nat.le_refl _, Nat.le_succ _⟩
  · have grown := congrArg (·.1.size) (Except.ok.inj h)
    dsimp only at grown
    rw [DocumentRegistry.size_add] at grown
    omega

theorem size_of_foldlM {documents : List Document} {progress result : Progress}
    (h : documents.foldlM (DocumentRegistry.declareNext generation history) progress = .ok result) :
    progress.1.size ≤ result.1.size ∧ result.1.size ≤ progress.1.size + documents.length := by
  induction documents generalizing progress with
  | nil =>
      cases h
      exact ⟨Nat.le_refl _, Nat.le_refl _⟩
  | cons document documents ih =>
      obtain ⟨middle, next, rest⟩ := Outcome.bind_eq_ok_iff.1 h
      obtain ⟨⟨new, id⟩, declared, eq⟩ := Outcome.bind_eq_ok_iff.1 next
      cases eq
      obtain ⟨lower, upper⟩ := size_of_declare declared
      obtain ⟨lower', upper'⟩ := ih rest
      rw [List.length_cons]
      dsimp only at lower' upper'
      omega

end Folds

/-- There is room if there would be room for documents that are all new. -/
theorem roomForDocuments_of_lt {registry : DocumentRegistry} {metadata : Metadata}
    {generation : Nat} {history : Nat → Option Metadata}
    (h : registry.size + metadata.documents.size < UInt32.size) :
    RoomForDocuments registry metadata generation history := by
  intro documents new ids front taken
  have upper : new.size ≤ registry.size + documents.length := (size_of_foldlM taken).2
  have shorter : documents.length ≤ metadata.documents.size := front.length_le
  omega

/-- **A machine takes in the documents that the library takes in, or fails as it does.** -/
theorem updateDocuments_eq {registry : DocumentRegistry} {metadata : Metadata} {generation : Nat}
    {history : Nat → Option Metadata}
    (fits : ∀ document ∈ metadata.documents, document.name.utf8ByteSize < objectBound)
    (room : RoomForDocuments registry metadata generation history) :
    updateDocuments registry metadata generation history =
      ofExcept (registry.update metadata generation history) :=
  foldlM_declareNext (fun document mem => fits document (Array.mem_toList_iff.1 mem)) room

/-- Taking documents in forgets none. -/
theorem size_le_of_update {registry new : DocumentRegistry} {metadata : Metadata} {generation : Nat}
    {history : Nat → Option Metadata} {ids : Std.HashMap UInt32 DocumentId}
    (h : registry.update metadata generation history = .ok (new, ids)) :
    registry.size ≤ new.size :=
  (size_of_foldlM h).1

/-! ### Looking documents up -/

/-- The identity of a path. -/
def findDocument (registry : DocumentRegistry) (history : Nat → Option Metadata) (path : String) :
    Exec (Option DocumentId) := do
  let name ← fileName path
  match registry.groups[Text.lowercase name]? with
  | none => return none
  | some [only] => return some only
  | some group =>
    let folded := Text.lowercase path
    return (group.find? fun id => registry.path? history id = some path)
      <|> (group.find? fun id => (registry.path? history id).any fun other =>
        Text.lowercase other = folded)
      <|> (group.find? fun id => (registry.place? id).any fun place => place.fileName = name)
      <|> DocumentRegistry.smallest? group

/-- **A machine finds the document that the library finds.** -/
theorem findDocument_eq {registry : DocumentRegistry} {history : Nat → Option Metadata}
    {path : String} (fits : path.utf8ByteSize < objectBound) :
    findDocument registry history path = pure (registry.find? history path) := by
  rw [findDocument, fileName_eq fits, pure_bind]
  unfold DocumentRegistry.find? DocumentRegistry.group? groupKey
  generalize registry.groups[Text.lowercase (Text.fileName path)]? = group
  rcases group with _ | (_ | ⟨only, _ | ⟨other, more⟩⟩) <;> rfl

end SymbolHistory.Machine
