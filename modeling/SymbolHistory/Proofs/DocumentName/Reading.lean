import SymbolHistory.Proofs.DocumentName

/-!
# What a name blob spells

A name blob is a separator and the places of the parts of a path. Reading it asks for three things:
an ASCII separator, whole compressed numbers behind it, and the bytes of a text at each place that
is not 0. If all of them are there, the path is its parts with the separator between them, which is
how every path is written.

## Main definitions

* `DocumentName.Numbers` : bytes are whole compressed numbers.
* `DocumentName.Part` : the text of a part.
* `DocumentName.joined` : the path of some parts.

## Main results

* `DocumentName.decodeParts_eq_ok_iff` : which parts are read.
* `DocumentName.decode_eq_ok_iff` : which path is read.
* `DocumentName.decode_of_encode` : a path is read from where it was written, whatever went into
  the heap before and after it.
-/

namespace SymbolHistory.DocumentName

open Bytes BlobHeap

/-- `bytes` are `numbers`, one after the other, each in any width that holds it. -/
inductive Numbers : (bytes : List UInt8) → (numbers : List Nat) → Prop
  | nil : Numbers [] []
  | cons {w : Width} {n : Nat} {bytes : List UInt8} {numbers : List Nat} :
      n < w.bound → Numbers bytes numbers → Numbers (w.put n ++ bytes) (n :: numbers)

/-- The part of a path at `place`: nothing at 0, and elsewhere the text whose bytes are there. -/
inductive Part (heap : BlobHeap) : (place : Nat) → (text : String) → Prop
  | empty : Part heap 0 ""
  | stored {place : Nat} {text : String} :
      place ≠ 0 → heap.Has place (utf8 text.toList) → Part heap place text

/-- The path of `parts`: with the separator between them, or nothing for a separator of 0. -/
def joined (separator : UInt8) (parts : List String) : String :=
  if separator = 0 then String.join parts
  else (String.singleton (Char.ofNat separator.toNat)).intercalate parts

/-! ### Parts -/

/-- Bytes are read as a text exactly if they are those of the text. -/
theorem fromUTF8?_eq_some_iff {bytes : List UInt8} {text : String} :
    String.fromUTF8? ⟨bytes.toArray⟩ = some text ↔ bytes = utf8 text.toList := by
  constructor
  · intro h
    rw [String.fromUTF8?] at h
    split at h
    · obtain rfl := Option.some.inj h
      rw [utf8, String.ofList_toList]
      rfl
    · cases h
  · rintro rfl
    rw [fromUTF8?_utf8, String.ofList_toList]

/-- A part is read exactly where it is. -/
theorem part_eq_ok_iff {heap : BlobHeap} {place : Nat} {text : String} :
    part heap place = .ok text ↔ Part heap place text := by
  constructor
  · intro h
    rw [part] at h
    by_cases zero : place = 0
    · rw [if_pos zero] at h
      obtain rfl := Outcome.pure_eq_ok_iff.1 h
      exact zero ▸ .empty
    · rw [if_neg zero] at h
      obtain ⟨bytes, got, h⟩ := Outcome.bind_eq_ok_iff.1 h
      split at h
      · next valid =>
        obtain rfl := Outcome.pure_eq_ok_iff.1 h
        obtain rfl := fromUTF8?_eq_some_iff.1 valid
        exact .stored zero (get_eq_ok_iff.1 got)
      · cases h
  · intro h
    cases h with
    | empty => rfl
    | stored nonzero has =>
        have valid : String.fromUTF8? ⟨(utf8 text.toList).toArray⟩ = some text :=
          fromUTF8?_eq_some_iff.2 rfl
        rw [part, if_neg nonzero, Outcome.bind_of_ok (get_eq_ok_iff.2 has)]
        simp only [valid]
        rfl

/-- A part is a blob, so it is not long. -/
theorem Part.utf8ByteSize_lt {heap : BlobHeap} {place : Nat} {text : String}
    (h : Part heap place text) : text.utf8ByteSize < Width.four.bound := by
  cases h with
  | empty => decide
  | stored _ has =>
      have short := has.length_lt
      rwa [length_utf8, String.ofList_toList] at short

/-- Every number takes a byte at least. -/
theorem Numbers.length_le {bytes : List UInt8} {numbers : List Nat} (h : Numbers bytes numbers) :
    numbers.length ≤ bytes.length := by
  induction h with
  | nil => exact Nat.le_refl 0
  | @cons w n bytes numbers _ _ ih =>
      have : 0 < w.length := by cases w <;> decide
      rw [List.length_cons, List.length_append, length_put]
      omega

/-- **Parts are read exactly from whole numbers that are places of parts.** -/
theorem decodeParts_eq_ok_iff {heap : BlobHeap} {bytes : List UInt8} {parts : List String} :
    decodeParts heap bytes = .ok parts ↔
      ∃ numbers, Numbers bytes numbers ∧ List.Forall₂ (Part heap) numbers parts := by
  constructor
  · intro h
    -- Each number takes a byte at least, so the bytes behind it are fewer.
    induction size : bytes.length using Nat.strongRecOn generalizing bytes parts with
    | ind _ ih =>
      rcases bytes with _ | ⟨b, bytes⟩
      · rw [decodeParts] at h
        obtain rfl := Except.ok.inj h
        exact ⟨[], .nil, .nil⟩
      · rw [decodeParts_eq heap (List.cons_ne_nil b bytes)] at h
        obtain ⟨⟨place, rest⟩, read, h⟩ := Outcome.bind_eq_ok_iff.1 h
        obtain ⟨text, found, h⟩ := Outcome.bind_eq_ok_iff.1 h
        obtain ⟨others, read_on, rfl⟩ := Outcome.map_eq_ok_iff.1 h
        have shorter := consumes_unsigned _ _ _ read
        obtain ⟨numbers, whole, parts⟩ := ih rest.length (by omega) read_on rfl
        obtain ⟨w, held, eq⟩ := unsigned_eq_ok_iff.1 read
        rw [eq]
        exact ⟨place :: numbers, .cons held whole, .cons (part_eq_ok_iff.1 found) parts⟩
  · rintro ⟨numbers, whole, found⟩
    induction whole generalizing parts with
    | nil =>
        cases found
        rw [decodeParts]
    | @cons w n bytes numbers held _ ih =>
        cases found with
        | cons first others =>
            rw [decodeParts_of_unsigned (unsigned_eq_ok_iff.2 ⟨w, held, rfl⟩)
              (part_eq_ok_iff.2 first), ih others]
            rfl

/-! ### Paths -/

/-- Nothing between parts leaves them next to each other. -/
theorem intercalate_empty (parts : List String) : "".intercalate parts = String.join parts := by
  induction parts with
  | nil => rw [String.intercalate_nil, String.join_nil]
  | cons part parts ih =>
      rcases parts with _ | ⟨next, parts⟩
      · rw [String.intercalate_singleton, String.join_cons, String.join_nil, String.append_empty]
      · rw [String.intercalate_cons_cons, ih, String.append_empty, ← String.join_cons]

theorem intercalate_separatorText (separator : UInt8) (parts : List String) :
    (separatorText separator).intercalate parts = joined separator parts := by
  rw [separatorText, joined]
  by_cases zero : separator = 0
  · rw [if_pos zero, if_pos zero, intercalate_empty]
  · rw [if_neg zero, if_neg zero]

/-- **A path is read exactly from an ASCII separator and the places of its parts.** -/
theorem decode_eq_ok_iff {heap : BlobHeap} {index : Nat} {separator : UInt8}
    {places : List UInt8} {name : String} (h : heap.Has index (separator :: places)) :
    decode heap index = .ok name ↔
      separator < 128 ∧ ∃ numbers parts, Numbers places numbers ∧
        List.Forall₂ (Part heap) numbers parts ∧ name = joined separator parts := by
  rw [decode, Outcome.bind_of_ok (get_eq_ok_iff.2 h)]
  dsimp only
  by_cases ascii : separator < 128
  · rw [if_pos ascii, and_iff_right ascii, Outcome.bind_eq_ok_iff]
    constructor
    · rintro ⟨parts, read, eq⟩
      obtain ⟨numbers, whole, found⟩ := decodeParts_eq_ok_iff.1 read
      rw [intercalate_separatorText] at eq
      exact ⟨numbers, parts, whole, found, (Outcome.pure_eq_ok_iff.1 eq).symm⟩
    · rintro ⟨numbers, parts, whole, found, rfl⟩
      refine ⟨parts, decodeParts_eq_ok_iff.2 ⟨numbers, whole, found⟩, ?_⟩
      rw [intercalate_separatorText]
      rfl
  · rw [if_neg ascii]
    constructor
    · intro h
      cases h
    · rintro ⟨small, -⟩
      exact absurd small ascii

/-- The empty blob is the empty path. -/
theorem decode_of_nil {heap : BlobHeap} {index : Nat} (h : heap.Has index []) :
    decode heap index = .ok "" := by
  rw [decode, Outcome.bind_of_ok (get_eq_ok_iff.2 h)]
  rfl

/-- No path is read where there is no blob. -/
theorem exists_error_of_decode {heap : BlobHeap} {index : Nat} (h : ∀ blob, ¬ heap.Has index blob) :
    ∃ e, decode heap index = .error e := by
  cases got : heap.get index with
  | error e => exact ⟨e, Outcome.bind_of_error got⟩
  | ok blob => exact absurd (get_eq_ok_iff.1 got) (h blob)

/-- **A path is read from where it was written**, whatever else is in the heap. -/
theorem decode_of_encode {before after : List (List UInt8)} {name : String} {place : UInt32}
    {later : Builder} (h : encode (Builder.new.addAll before) name = .ok (place, later)) :
    ∃ heap, BlobHeap.ofBytes (later.addAll after).bytes.toList = .ok heap ∧
      decode heap place.toNat = .ok name := by
  have valid := (Builder.valid_new.grows_addAll before).valid
  obtain ⟨grows, named⟩ := grows_of_encode valid h
  have grows_on := grows.valid.grows_addAll after
  have empty := grows_on.valid.empty
  exact ⟨_, empty.ofBytes, (named.mono grows_on.kept).decode empty⟩

/-- **What a name blob spells, and that every path is spelled by its own.** No path is read where
there is no blob, and the empty one from the empty blob. From a separator and what follows it, a
path is read exactly if the separator is ASCII, whole numbers follow it, and each is the place of a
part; it is then the parts with the separator between them. A path that was written is read from the
place that was answered, however the heap was built before and whatever is added behind. -/
theorem decode_joins_parts_and_inverts_encode :
    (∀ (heap : BlobHeap) (index : Nat),
      ((∀ blob, ¬ heap.Has index blob) → ∃ e, decode heap index = .error e) ∧
      (heap.Has index [] → decode heap index = .ok "") ∧
      ∀ separator places, heap.Has index (separator :: places) →
        ∀ name, decode heap index = .ok name ↔
          separator < 128 ∧ ∃ numbers parts, Numbers places numbers ∧
            List.Forall₂ (Part heap) numbers parts ∧ name = joined separator parts) ∧
    ∀ (before : List (List UInt8)) (name : String) (place : UInt32) (later : Builder),
      encode (Builder.new.addAll before) name = .ok (place, later) →
      ∀ after : List (List UInt8), ∃ heap,
        BlobHeap.ofBytes (later.addAll after).bytes.toList = .ok heap ∧
          decode heap place.toNat = .ok name :=
  ⟨fun _ _ => ⟨exists_error_of_decode, decode_of_nil, fun _ _ has _ => decode_eq_ok_iff has⟩,
    fun _ _ _ _ written _ => decode_of_encode written⟩

/-- A heap with the parts of `/src/A.cs`, two names that share them, and a name whose separator is
not ASCII. -/
def sharedParts : BlobHeap :=
  ⟨#[0, 3, 115, 114, 99, 4, 65, 46, 99, 115, 4, 47, 0, 1, 5, 3, 0, 1, 5, 2, 128, 1]⟩

/-- The first name has a slash in front of its empty part, the second no separators. A path with
both kinds of slashes, two of them next to each other, is written behind one of its parts, and read
again when a blob that is not a text was added. -/
theorem decode_joins_parts_and_inverts_encode_sharedParts :
    (∃ e, decode sharedParts 22 = .error e) ∧ decode sharedParts 0 = .ok "" ∧
      decode sharedParts 10 = .ok "/src/A.cs" ∧ decode sharedParts 15 = .ok "srcA.cs" ∧
      (∀ name, decode sharedParts 19 ≠ .ok name) ∧
      ∃ place later, encode (Builder.new.addAll [utf8 ['s', 'r', 'c']]) "/src//A\\b.cs" =
          .ok (place, later) ∧
        ∃ heap, BlobHeap.ofBytes (later.addAll [[255, 254]]).bytes.toList = .ok heap ∧
          decode heap place.toNat = .ok "/src//A\\b.cs" := by
  obtain ⟨reads, writes⟩ := decode_joins_parts_and_inverts_encode
  have has {place : Nat} {blob : List UInt8} (h : sharedParts.get place = .ok blob) :
      sharedParts.Has place blob := get_eq_ok_iff.1 h
  have numbers : Numbers [1, 5] [1, 5] :=
    .cons (w := .one) (by decide) (.cons (w := .one) (by decide) .nil)
  have parts : List.Forall₂ (Part sharedParts) [1, 5] ["src", "A.cs"] :=
    .cons (.stored (by decide) (has rfl)) (.cons (.stored (by decide) (has rfl)) .nil)
  refine ⟨(reads _ _).1 fun blob has => ?_, (reads _ _).2.1 (has rfl),
    ((reads _ _).2.2 47 [0, 1, 5] (has rfl) _).2 ?_, ((reads _ _).2.2 0 [1, 5] (has rfl) _).2 ?_,
    fun name h => ?_, ?_⟩
  · cases (get_eq_ok_iff.2 has).symm.trans (rfl : sharedParts.get 22 = .error .outOfBounds)
  · exact ⟨by decide, _, _, .cons (w := .one) (by decide) numbers, .cons .empty parts, by decide⟩
  · exact ⟨by decide, _, _, numbers, parts, by decide⟩
  · exact absurd (((reads _ _).2.2 128 [1] (has rfl) _).1 h).1 (by decide)
  · have added : Builder.new.add (utf8 ['s', 'r', 'c']) = .ok (1, _) :=
      Builder.add_eq_ok_iff.2 (.inr (.inr ⟨by decide, Std.HashMap.getElem?_empty, by decide,
        by decide, rfl, [3], rfl, rfl⟩))
    have valid := (Builder.valid_new.grows_addAll [utf8 ['s', 'r', 'c']]).valid
    have size : (Builder.new.addAll [utf8 ['s', 'r', 'c']]).bytes.size = 5 := by
      rw [Builder.addAll, added]
      decide
    have room : (Builder.new.addAll [utf8 ['s', 'r', 'c']]).bytes.size + cost "/src//A\\b.cs" ≤
        Width.four.bound := by
      rw [size]
      decide
    obtain ⟨place, later, written⟩ := exists_encode valid room
    exact ⟨place, later, written, writes _ _ _ _ written _⟩

end SymbolHistory.DocumentName
