import SymbolHistory.LineTable.Iterator
import SymbolHistory.Proofs.LineTable.RoundTrip

/-!
# Points that are asked for one at a time

Whoever asks for one point after the other gets the points up to the first damaged record, then what
is wrong with that record, and then nothing for ever. These are the points that reading all of them
at once goes through. If a line table is cut off anywhere, the points in front of the cut stay the
same: a record that is complete is read alike, whatever follows it.

## Main definitions

* `LineTable.Iterator.Answers` : which points are answered, and which failure behind them.

## Main results

* `LineTable.Iterator.answers_readPoints` : what is answered by an iterator that has not failed.
* `LineTable.Iterator.Answers.collect_eq` : what collecting the points comes to.
* `LineTable.readPoints_prefix` : bytes that are added do not change the points in front of them.
* `LineTable.points_one_at_a_time` : the whole story, for every list of bytes.
-/

namespace SymbolHistory.LineTable

open Bytes

namespace Iterator

/-- When points are asked for again and again, the answers are these points, in order, then the
failure if there is one, and then nothing for ever. -/
def Answers (iterator : Iterator) (points : List SequencePoint) (failure : Option Error) : Prop :=
  ∀ question, iterator.answer question =
    (points.map Except.ok ++ failure.toList.map Except.error)[question]?

/-! ### Questions -/

/-- Where there is nothing, nothing comes. -/
theorem answer_of_isEmpty {iterator : Iterator} (h : iterator.failed ∨ iterator.rest = [])
    (question : Nat) : iterator.answer question = none := by
  induction question with
  | zero => rw [answer, next_of_isEmpty h]
  | succ question ih => rw [answer, next_of_isEmpty h, ih]

theorem answers_nil {iterator : Iterator} (h : iterator.failed ∨ iterator.rest = []) :
    iterator.Answers [] none := fun question => answer_of_isEmpty h question

/-- A damaged record is all that is answered. -/
theorem answers_error {iterator later : Iterator} {e : Error}
    (h : iterator.next = (some (.error e), later)) (failed : later.failed) :
    iterator.Answers [] (some e) := by
  intro question
  cases question with
  | zero => rw [answer, h]; rfl
  | succ question =>
      rw [answer, h]
      exact answer_of_isEmpty (.inl failed) question

/-- A point is answered, and then what is answered behind it. -/
theorem answers_cons {iterator later : Iterator} {point : SequencePoint}
    {points : List SequencePoint} {failure : Option Error}
    (h : iterator.next = (some (.ok point), later)) (behind : later.Answers points failure) :
    iterator.Answers (point :: points) failure := by
  intro question
  cases question with
  | zero => rw [answer, h]; rfl
  | succ question =>
      rw [answer, h]
      exact behind question

/-- **What is answered** before anything has failed: the points that are read up to the end or to
the first failure, and that failure. -/
theorem answers_readPoints (header : Header) (context : Context) (rest : List UInt8) :
    Answers ⟨header, context, rest, false⟩ (readPoints context rest).1
      (readPoints context rest).2 := by
  fun_induction readPoints context rest with
  | case1 context => exact answers_nil (.inr rfl)
  | case2 context b bs e failed =>
      exact answers_error (next_of_error rfl (List.cons_ne_nil _ _) failed) rfl
  | case3 context b bs point rest read lt points failure others ih =>
      rw [others] at ih
      exact answers_cons (next_of_ok rfl (List.cons_ne_nil _ _) read) ih

/-! ### All points -/

theorem collect_of_none {iterator later : Iterator} (h : iterator.next = (none, later)) :
    iterator.collect = .ok [] := by
  rw [collect]
  split
  · rfl
  · next e other eq => cases eq.symm.trans h
  · next point other eq => cases eq.symm.trans h

theorem collect_of_error {iterator later : Iterator} {e : Error}
    (h : iterator.next = (some (.error e), later)) : iterator.collect = .error e := by
  rw [collect]
  split
  · next other eq => cases eq.symm.trans h
  · next e' other eq =>
    cases eq.symm.trans h
    rfl
  · next point other eq => cases eq.symm.trans h

theorem collect_of_ok {iterator later : Iterator} {point : SequencePoint}
    (h : iterator.next = (some (.ok point), later)) :
    iterator.collect = (point :: ·) <$> later.collect := by
  rw [collect]
  split
  · next other eq => cases eq.symm.trans h
  · next e other eq => cases eq.symm.trans h
  · next point' other eq =>
    cases eq.symm.trans h
    rfl

/-- **What collecting the points comes to**: the points that are answered, or the failure. -/
theorem Answers.collect_eq {iterator : Iterator} {points : List SequencePoint}
    {failure : Option Error} (h : iterator.Answers points failure) :
    iterator.collect = failure.elim (.ok points) .error := by
  induction points generalizing iterator with
  | nil =>
      have first : iterator.next.1 = failure.map .error := by
        rw [← answer, h 0]
        cases failure <;> rfl
      cases failure with
      | none => exact collect_of_none (Prod.ext first rfl)
      | some e => exact collect_of_error (Prod.ext first rfl)
  | cons point points ih =>
      have first : iterator.next.1 = some (.ok point) := h 0
      have behind : iterator.next.2.Answers points failure := fun question => h (question + 1)
      rw [collect_of_ok (Prod.ext first rfl), ih behind]
      cases failure <;> rfl

end Iterator

/-! ### Headers -/

/-- A header is read alike, whatever bytes are added behind it. -/
theorem readHeader_append {column : Option UInt32} {bytes rest : List UInt8} {header : Header}
    (h : readHeader column bytes = .ok (header, rest)) (more : List UInt8) :
    readHeader column (bytes ++ more) = .ok (header, rest ++ more) := by
  obtain ⟨formed, column_eq, form, written, rfl⟩ := readHeader_eq_ok_iff.1 h
  exact readHeader_eq_ok_iff.2 ⟨formed, column_eq, form, written, List.append_assoc _ _ _⟩

/-- An iterator starts behind the header. -/
theorem Iterator.ofBytes_eq_ok_iff {bytes : List UInt8} {column : Option UInt32}
    {iterator : Iterator} :
    ofBytes bytes column = .ok iterator ↔
      ∃ header rest, readHeader column bytes = .ok (header, rest) ∧
        iterator = ⟨header, .initial header.initialDocument, rest, false⟩ := by
  rw [ofBytes, Outcome.bind_eq_ok_iff]
  constructor
  · rintro ⟨⟨header, rest⟩, read, eq⟩
    exact ⟨header, rest, read, (Outcome.pure_eq_ok_iff.1 eq).symm⟩
  · rintro ⟨header, rest, read, rfl⟩
    exact ⟨(header, rest), read, rfl⟩

/-! ### Records -/

/-- A record is read alike, whatever bytes are added behind it. -/
theorem readPoint_append {context : Context} {bytes rest : List UInt8} {point : SequencePoint}
    (h : readPoint context bytes = .ok (point, rest)) (more : List UInt8) :
    readPoint context (bytes ++ more) = .ok (point, rest ++ more) := by
  obtain ⟨admitted, form, written, rfl⟩ := readPoint_eq_ok_iff.1 h
  exact readPoint_eq_ok_iff.2 ⟨admitted, form, written, List.append_assoc _ _ _⟩

/-- **Bytes that are added do not change the points in front of them.** -/
theorem readPoints_prefix (context : Context) (bytes more : List UInt8) :
    (readPoints context bytes).1 <+: (readPoints context (bytes ++ more)).1 := by
  fun_induction readPoints context bytes with
  | case1 context => exact List.nil_prefix
  | case2 context b bs e failed => exact List.nil_prefix
  | case3 context b bs point rest read lt points failure others ih =>
      rw [others] at ih
      rw [readPoints_of_ok (readPoint_append read more), List.cons_prefix_cons]
      exact ⟨rfl, ih⟩

/-- Every point takes three bytes or more. -/
theorem length_readPoints_le (context : Context) (bytes : List UInt8) :
    (readPoints context bytes).1.length * 3 ≤ bytes.length := by
  fun_induction readPoints context bytes with
  | case1 context => exact Nat.le_refl _
  | case2 context b bs e failed => exact Nat.zero_le _
  | case3 context b bs point rest read lt points failure others ih =>
      have consumed := consumes_readPoint _ _ _ _ read
      have behind : points.length * 3 ≤ rest.length := by rwa [others] at ih
      rw [List.length_cons]
      omega

/-! ### The whole story -/

/-- **Points that are asked for one at a time**, for every list of bytes with a header that can be
read. There are points, one for three bytes behind the header at most, then at most one failure, and
then nothing for ever. Reading all points yields them, or that failure. And as long as the header
can be read, points in front of a cut stay the same. -/
theorem points_one_at_a_time {bytes : List UInt8} {column : Option UInt32} {iterator : Iterator}
    (h : Iterator.ofBytes bytes column = .ok iterator) :
    ∃ points failure, iterator.Answers points failure ∧
      (∃ front, bytes = front ++ iterator.rest ∧
        points.length ≤ (bytes.length - front.length) / 3) ∧
      readAll bytes column = failure.elim (.ok points) .error ∧
      ∀ size cut, Iterator.ofBytes (bytes.take size) column = .ok cut →
        ∃ others stop, cut.Answers others stop ∧ others <+: points := by
  obtain ⟨header, rest, read, rfl⟩ := Iterator.ofBytes_eq_ok_iff.1 h
  have answers := Iterator.answers_readPoints header (.initial header.initialDocument) rest
  refine ⟨_, _, answers, ?_, ?_, ?_⟩
  · obtain ⟨-, -, form, -, rfl⟩ := readHeader_eq_ok_iff.1 read
    refine ⟨form, rfl, ?_⟩
    rw [List.length_append, Nat.add_sub_cancel_left]
    exact (Nat.le_div_iff_mul_le (Nat.zero_lt_succ 2)).2 (length_readPoints_le _ rest)
  · rw [readAll, Outcome.bind_of_ok h]
    exact answers.collect_eq
  · intro size cut started
    obtain ⟨header', rest', read', rfl⟩ := Iterator.ofBytes_eq_ok_iff.1 started
    -- The header of the whole is that of the front, and the bytes behind it go on.
    have whole := readHeader_append read' (bytes.drop size)
    rw [List.take_append_drop, read] at whole
    obtain ⟨rfl, rfl⟩ := Prod.mk.inj (Except.ok.inj whole)
    exact ⟨_, _, Iterator.answers_readPoints _ _ _, readPoints_prefix _ _ _⟩

/-- A line table with three points, and a cut between the two bytes of the last offset. -/
theorem points_one_at_a_time_threePoints :
    ∃ iterator, Iterator.ofBytes
        [0x2A, 1, 0, 2, 0x79, 10, 9, 0, 2, 4, 0, 0, 0x81, 0x2C, 0, 3, 0x7D, 0x77] none =
          .ok iterator ∧
      iterator.Answers threePoints.points none ∧
      ∃ cut, Iterator.ofBytes [0x2A, 1, 0, 2, 0x79, 10, 9, 0, 2, 4, 0, 0, 0x81] none = .ok cut ∧
        ∃ others stop, cut.Answers others stop ∧ others <+: threePoints.points := by
  have started : Iterator.ofBytes
      [0x2A, 1, 0, 2, 0x79, 10, 9, 0, 2, 4, 0, 0, 0x81, 0x2C, 0, 3, 0x7D, 0x77] none =
        .ok ⟨⟨0x2A, 1, true⟩, .initial 1,
          [0, 2, 0x79, 10, 9, 0, 2, 4, 0, 0, 0x81, 0x2C, 0, 3, 0x7D, 0x77], false⟩ := by
    decide +kernel
  have cut : Iterator.ofBytes [0x2A, 1, 0, 2, 0x79, 10, 9, 0, 2, 4, 0, 0, 0x81] none =
      .ok ⟨⟨0x2A, 1, true⟩, .initial 1, [0, 2, 0x79, 10, 9, 0, 2, 4, 0, 0, 0x81], false⟩ := by
    decide +kernel
  obtain ⟨points, failure, answers, -, all, fronts⟩ := points_one_at_a_time started
  have read : readAll
      [0x2A, 1, 0, 2, 0x79, 10, 9, 0, 2, 4, 0, 0, 0x81, 0x2C, 0, 3, 0x7D, 0x77] none =
        .ok threePoints.points := by decide +kernel
  have whole := all.symm.trans read
  cases failure with
  | some e => cases whole
  | none =>
      obtain rfl : points = threePoints.points := Except.ok.inj whole
      exact ⟨_, started, answers, _, cut, fronts 13 _ cut⟩

end SymbolHistory.LineTable
