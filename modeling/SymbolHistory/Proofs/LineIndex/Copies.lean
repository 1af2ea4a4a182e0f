import SymbolHistory.LineIndex.Copies
import SymbolHistory.Proofs.LineIndex.Lookup

/-!
# Copies that do not disturb one another

Each copy of an index answers as an index that went through the copy's own changes and was never
asked anything. So what a copy answers depends neither on what it or another copy was asked before,
nor on how other copies change, nor on whether runs are remembered.

## Main definitions

* `LineIndex.SameContent` : indices that differ at most in what they remember.
* `LineIndex.Follows` : an index is what changes make of it, but for what it remembers.
* `LineIndex.AnsweredFromExtents` : answers are those of the current extents.

## Main results

* `LineIndex.following_ofOperations` : whatever happens, copies follow their histories.
* `LineIndex.copies_answer_from_own_changes` : so that is what they answer.
-/

namespace SymbolHistory.LineIndex

/-! ### Indices that say the same -/

/-- Indices that differ at most in what they remember. -/
structure SameContent (index other : LineIndex) : Prop where
  /-- They have the same extents. -/
  byDocument : index.byDocument = other.byDocument
  /-- They have the same documents. -/
  byMethod : index.byMethod = other.byMethod

namespace SameContent

variable {index other : LineIndex}

/-- An index has the same content as itself. -/
theorem refl (index : LineIndex) : SameContent index index :=
  ⟨rfl, rfl⟩

/-- The extents of documents are the same. -/
theorem extentsIn (h : SameContent index other) : index.extentsIn = other.extentsIn := by
  funext document
  rw [LineIndex.extentsIn, LineIndex.extentsIn, h.byDocument]

/-- The documents of methods are the same. -/
theorem documents (h : SameContent index other) : index.documents = other.documents := by
  funext method
  rw [LineIndex.documents, LineIndex.documents, h.byMethod]

/-- They stay the same if a document gets the same extents in both. -/
theorem setExtents (h : SameContent index other) (document : DocumentId) (extents : List Extent) :
    SameContent (index.setExtents document extents) (other.setExtents document extents) := by
  refine ⟨?_, h.byMethod⟩
  rw [LineIndex.setExtents, LineIndex.setExtents, h.byDocument]

/-- So they do if a method gets the same documents in both. -/
theorem setDocuments (h : SameContent index other) (method : MethodId)
    (documents : List DocumentId) :
    SameContent (index.setDocuments method documents) (other.setDocuments method documents) := by
  refine ⟨h.byDocument, ?_⟩
  rw [LineIndex.setDocuments, LineIndex.setDocuments, h.byMethod]

/-- Steps that keep content the same do so one after the other. -/
theorem foldl {α : Type} {step : LineIndex → α → LineIndex}
    (one : ∀ index other a, SameContent index other → SameContent (step index a) (step other a))
    (h : SameContent index other) (as : List α) :
    SameContent (as.foldl step index) (as.foldl step other) := by
  induction as generalizing index other with
  | nil => exact h
  | cons a as ih => exact ih (one index other a h)

/-- So they do if a method gets the same spans in both. -/
theorem replace (h : SameContent index other) (method : MethodId) (version : Nat)
    (spans : List Span) :
    SameContent (index.replace method version spans) (other.replace method version spans) := by
  rw [LineIndex.replace, LineIndex.replace, h.documents]
  refine setDocuments (foldl ?_ (foldl ?_ h _) _) _ _
  · intro index other span same
    rw [addSpan, addSpan, same.extentsIn]
    exact same.setExtents _ _
  · intro index other document same
    rw [eraseFrom, eraseFrom, same.extentsIn]
    exact same.setExtents _ _

/-- So they do if a method moves by as much in both. -/
theorem shift (h : SameContent index other) (document : DocumentId) (method : MethodId)
    (delta : Int32) :
    SameContent (index.shift document method delta) (other.shift document method delta) := by
  rw [LineIndex.shift, LineIndex.shift, h.extentsIn]
  exact h.setExtents _ _

/-- Changes keep content the same. -/
theorem perform (h : SameContent index other) (change : Change) :
    SameContent (index.perform change) (other.perform change) := by
  cases change with
  | replace methods =>
      rw [LineIndex.perform, LineIndex.perform, replaceAll, replaceAll]
      exact foldl (fun _ _ new same => same.replace new.method new.version new.spans) h methods
  | shift moves =>
      rw [LineIndex.perform, LineIndex.perform, shiftAll, shiftAll]
      exact foldl (fun _ _ move same => same.shift move.1 move.2.1 move.2.2) h moves
  | remember document => exact ⟨h.byDocument, h.byMethod⟩

/-- Remembering runs changes no content. -/
theorem remember (h : SameContent index other) (document : DocumentId) :
    SameContent (index.remember document) other :=
  ⟨h.byDocument, h.byMethod⟩

/-- **Indices with the same content answer alike**, if they remember the right runs. -/
theorem answer (h : SameContent index other) (faithful : index.Faithful)
    (other_faithful : other.Faithful) (question : Question) :
    index.answer question = other.answer question := by
  have runs : index.runs = other.runs := by
    funext document
    rw [faithful.runs_eq, other_faithful.runs_eq, h.extentsIn]
  cases question with
  | runs document => rw [LineIndex.answer, LineIndex.answer, runs]
  | hits document line => rw [LineIndex.answer, LineIndex.answer, hits, hits, runs]
  | firstHit document line =>
      rw [LineIndex.answer, LineIndex.answer, firstHit?, firstHit?, hits, hits, runs]
  | nextExtents document line =>
      rw [LineIndex.answer, LineIndex.answer, nextExtents, nextExtents, runs]

end SameContent

/-! ### Copies and their histories -/

/-- An index is what changes make of it, but for what it remembers, which is right. -/
structure Follows (index : LineIndex) (history : List Change) : Prop where
  /-- What it remembers is right. -/
  faithful : index.Faithful
  /-- The rest is as the changes make it. -/
  same : SameContent index (ofChanges history)

/-- The empty index follows no changes. -/
theorem follows_empty : empty.Follows [] :=
  ⟨faithful_empty, .refl _⟩

/-- A change that is made is one more to follow. -/
theorem Follows.perform {index : LineIndex} {history : List Change} (h : index.Follows history)
    (change : Change) : (index.perform change).Follows (history ++ [change]) := by
  refine ⟨h.faithful.perform change, ?_⟩
  rw [ofChanges, List.foldl_append]
  exact h.same.perform change

/-- Remembering runs is none. -/
theorem Follows.remember {index : LineIndex} {history : List Change} (h : index.Follows history)
    (document : DocumentId) : (index.remember document).Follows history :=
  ⟨h.faithful.remember document, h.same.remember document⟩

/-- Copies follow their histories. -/
structure Following (copies : List LineIndex) (histories : List (List Change)) : Prop where
  /-- Every copy has one. -/
  length_eq : copies.length = histories.length
  /-- It is what its history makes of it. -/
  follows : ∀ (copy : Nat) (index : LineIndex) (history : List Change),
    copies[copy]? = some index → histories[copy]? = some history → index.Follows history

namespace Following

variable {copies : List LineIndex} {histories : List (List Change)}

/-- Every copy follows its own changes. -/
theorem exists_history (h : Following copies histories) {copy : Nat} {index : LineIndex}
    (found : copies[copy]? = some index) :
    ∃ history, histories[copy]? = some history ∧ index.Follows history := by
  have lt : copy < histories.length := h.length_eq ▸ (List.getElem?_eq_some_iff.1 found).1
  exact ⟨_, List.getElem?_eq_getElem lt, h.follows copy _ _ found (List.getElem?_eq_getElem lt)⟩

/-- One more copy. -/
theorem append (h : Following copies histories) {index : LineIndex} {history : List Change}
    (new : index.Follows history) : Following (copies ++ [index]) (histories ++ [history]) where
  length_eq := by rw [List.length_append, List.length_append, h.length_eq]; rfl
  follows copy found known at_copy at_history := by
    rw [List.getElem?_append] at at_copy at_history
    rw [← h.length_eq] at at_history
    by_cases lt : copy < copies.length
    · rw [if_pos lt] at at_copy at_history
      exact h.follows copy found known at_copy at_history
    · rw [if_neg lt, List.getElem?_singleton] at at_copy at_history
      split at at_copy
      · next last =>
        rw [if_pos last] at at_history
        obtain rfl := Option.some.inj at_copy
        obtain rfl := Option.some.inj at_history
        exact new
      · cases at_copy

/-- One copy changes, and so does its history. -/
theorem modify (h : Following copies histories) {change : LineIndex → LineIndex}
    {note : List Change → List Change}
    (step : ∀ index history, Follows index history → (change index).Follows (note history))
    (copy : Nat) : Following (copies.modify copy change) (histories.modify copy note) where
  length_eq := by rw [List.length_modify, List.length_modify, h.length_eq]
  follows other found known at_copy at_history := by
    rw [List.getElem?_modify] at at_copy at_history
    obtain ⟨index, before, rfl⟩ := Option.map_eq_some_iff.1 at_copy
    obtain ⟨history, before', rfl⟩ := Option.map_eq_some_iff.1 at_history
    have follows := h.follows other index history before before'
    by_cases own : copy = other
    · rw [if_pos own, if_pos own]
      exact step index history follows
    · rw [if_neg own, if_neg own]
      exact follows

/-- **Every operation keeps it so.** -/
theorem operate (h : Following copies histories) (operation : Operation) :
    Following (operate copies operation) (record histories operation) := by
  cases operation with
  | create => exact h.append follows_empty
  | clone copy =>
      rw [LineIndex.operate, record]
      cases found : copies[copy]? with
      | none =>
          have absent : histories[copy]? = none := by
            rw [List.getElem?_eq_none_iff, ← h.length_eq]
            exact List.getElem?_eq_none_iff.1 found
          rw [absent]
          simpa using h
      | some index =>
          obtain ⟨history, known, follows⟩ := h.exists_history found
          rw [known]
          exact h.append follows
  | replace copy methods =>
      exact h.modify (fun _ _ follows => follows.perform (.replace methods)) copy
  | shift copy moves => exact h.modify (fun _ _ follows => follows.perform (.shift moves)) copy
  | ask copy question =>
      have asked : Following (copies.modify copy (·.remember question.document))
          (histories.modify copy id) := h.modify (fun _ _ follows => follows.remember _) copy
      rwa [List.modify_id] at asked

end Following

/-- **Whatever happens to copies, they follow their histories.** -/
theorem following_ofOperations (operations : List Operation) :
    Following (ofOperations operations) (historiesOf operations) := by
  induction operations using List.reverseRecOn with
  | nil => exact ⟨rfl, fun copy index history found => by simp [ofOperations] at found⟩
  | append_singleton operations operation ih =>
      rw [ofOperations, historiesOf, List.foldl_append, List.foldl_append]
      exact ih.operate operation

/-! ### What copies answer -/

/-- The answers of an index are those of its current extents. -/
structure AnsweredFromExtents (index : LineIndex) : Prop where
  /-- Runs are what the extents are divided into, whether they are remembered or not. -/
  runs_eq : ∀ document, index.runs document = packRuns (index.extentsIn document)
  /-- Hits are the methods of the extents on a line, as often as there are such extents. -/
  hits_eq : ∀ document line, index.hits document line =
    (((index.extentsIn document).filter (·.covers line)).map hitOf).mergeSort hitLe
  /-- The first hit is the first of these. -/
  firstHit?_eq : ∀ document line, index.firstHit? document line =
    ((((index.extentsIn document).filter (·.covers line)).map hitOf).mergeSort hitLe).head?

/-- Runs that are remembered rightly do not show in answers. -/
theorem Faithful.answeredFromExtents {index : LineIndex} (h : index.Faithful) :
    index.AnsweredFromExtents where
  runs_eq := h.runs_eq
  hits_eq := h.hits_eq
  firstHit?_eq document line := by rw [firstHit?, h.hits_eq]

/-- An operation that does not change the extents of a copy is not noted in its history. -/
theorem getElem?_record {histories : List (List Change)} {operation : Operation} {copy : Nat}
    {history : List Change} (found : histories[copy]? = some history)
    (other : ¬operation.Updates copy) : (record histories operation)[copy]? = some history := by
  have lt : copy < histories.length := (List.getElem?_eq_some_iff.1 found).1
  cases operation with
  | create => rw [record, List.getElem?_append_left lt, found]
  | clone original => rw [record, List.getElem?_append_left lt, found]
  | replace updated methods =>
      have ne : updated ≠ copy := fun eq => other (.inl ⟨methods, eq ▸ rfl⟩)
      rw [record, List.getElem?_modify, found]
      simp only [if_neg ne, Option.map_eq_map, Option.map_some]
  | shift updated moves =>
      have ne : updated ≠ copy := fun eq => other (.inr ⟨moves, eq ▸ rfl⟩)
      rw [record, List.getElem?_modify, found]
      simp only [if_neg ne, Option.map_eq_map, Option.map_some]
  | ask asked question => exact found

/-- **Copies answer from their own changes**, after any operations on any of them. The runs and hits
of a copy are those of its current extents, and these are what its own changes make of them. No
operation but a change of the copy itself, be it a question to the copy or a change of another one,
makes a difference to what it answers. -/
theorem copies_answer_from_own_changes {operations : List Operation} {copy : Nat}
    {index : LineIndex} (found : (ofOperations operations)[copy]? = some index) :
    index.AnsweredFromExtents ∧
      (∃ history, (historiesOf operations)[copy]? = some history ∧
        (∀ document, index.extentsIn document = (ofChanges history).extentsIn document) ∧
        ∀ question, index.answer question = (ofChanges history).answer question) ∧
      ∀ operation : Operation, ¬operation.Updates copy →
        ∃ after, (ofOperations (operations ++ [operation]))[copy]? = some after ∧
          ∀ question, after.answer question = index.answer question := by
  have following := following_ofOperations operations
  obtain ⟨history, known, follows⟩ := following.exists_history found
  have answer : ∀ question, index.answer question = (ofChanges history).answer question :=
    follows.same.answer follows.faithful (faithful_ofChanges history)
  refine ⟨follows.faithful.answeredFromExtents, ⟨history, known, fun document => ?_, answer⟩,
    fun operation other => ?_⟩
  · rw [follows.same.extentsIn]
  · have still : (historiesOf (operations ++ [operation]))[copy]? = some history := by
      rw [historiesOf, List.foldl_append]
      exact getElem?_record known other
    have then_following := following_ofOperations (operations ++ [operation])
    have lt : copy < (ofOperations (operations ++ [operation])).length := by
      rw [then_following.length_eq]
      exact (List.getElem?_eq_some_iff.1 still).1
    refine ⟨_, List.getElem?_eq_getElem lt, fun question => ?_⟩
    have follows' := then_following.follows copy _ history (List.getElem?_eq_getElem lt) still
    rw [answer, follows'.same.answer follows'.faithful (faithful_ofChanges history)]

/-- An index with one method is asked about its document and copied. The copy takes the runs along,
and then another method is added to the first index. -/
def copyAndExtend : List Operation :=
  [.create, .replace 0 [⟨⟨1⟩, 1, [⟨⟨1⟩, 10, 20⟩]⟩], .ask 0 (.runs ⟨1⟩), .clone 0,
    .replace 0 [⟨⟨2⟩, 2, [⟨⟨1⟩, 12, 14⟩]⟩], .ask 0 (.hits ⟨1⟩ 13)]

/-- The copy answers from the extent of the first method alone. -/
theorem copies_answer_from_own_changes_copyAndExtend :
    ∃ index, (ofOperations copyAndExtend)[1]? = some index ∧ index.AnsweredFromExtents ∧
      ∀ question, index.answer question =
        (ofChanges [.replace [⟨⟨1⟩, 1, [⟨⟨1⟩, 10, 20⟩]⟩]]).answer question := by
  have found : ∃ index, (ofOperations copyAndExtend)[1]? = some index := ⟨_, rfl⟩
  obtain ⟨index, found⟩ := found
  obtain ⟨answered, ⟨history, known, -, answer⟩, -⟩ := copies_answer_from_own_changes found
  have own : history = [.replace [⟨⟨1⟩, 1, [⟨⟨1⟩, 10, 20⟩]⟩]] := Option.some.inj known.symm
  exact ⟨index, found, answered, own ▸ answer⟩

end SymbolHistory.LineIndex
