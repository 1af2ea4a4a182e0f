import SymbolHistory.Bytes.Compressed

/-!
# Compressed numbers have one form

Reading a compressed number in its narrowest width accepts exactly what writing produces. So every
number has one form, and every form is that of one number.

## Main definitions

* `Width.first?` : the narrowest width with a property.

## Main results

* `compressed_eq_ok_iff` : which bytes are a number of a given width.
* `unsigned_eq_ok_iff` : which bytes are a number of any width.
* `Width.unrotate_rotate`, `Width.rotate_unrotate` : signed numbers and their stored forms.
* `Width.exists_ofUnsigned?_of_lt`, `Width.exists_ofSigned?_of_holds` : the narrowest width.
* `minimalUnsigned_eq_ok_iff`, `minimalSigned_eq_ok_iff` : reading accepts what writing produces.
* `encodeUnsigned_eq_ok_iff`, `encodeSigned_eq_ok_iff` : which numbers have a form.
-/

namespace SymbolHistory.Bytes

/-! ### Any width -/

theorem toNat_ofNat_of_lt {n : Nat} (h : n < 256) : (UInt8.ofNat n).toNat = n := by
  rw [UInt8.toNat_ofNat']
  omega

/-- A number is cut down to a byte by its remainder. -/
theorem ofNat_eq_of_mod {n : Nat} {b : UInt8} (h : n % 256 = b.toNat) : UInt8.ofNat n = b :=
  UInt8.toNat_inj.1 (UInt8.toNat_ofNat'.trans h)

/-- A recognised number is one that its width holds, written in that width. -/
theorem scan_eq_ok {bytes : List UInt8} {n : Nat} {w : Width} (h : scan bytes = .ok (n, w)) :
    n < w.bound ∧ bytes = w.put n ++ bytes.drop w.length := by
  rw [scan.eq_def] at h
  rcases bytes with _ | ⟨b, rest⟩
  · cases h
  · dsimp only at h
    have := b.toNat_lt
    by_cases one : b.toNat < 0x80
    · rw [if_pos one] at h
      obtain ⟨rfl, rfl⟩ := Prod.mk.inj (Except.ok.inj h)
      refine ⟨one, ?_⟩
      rw [Width.put, UInt8.ofNat_toNat]
      rfl
    · rw [if_neg one] at h
      by_cases two : b.toNat < 0xC0
      · rw [if_pos two] at h
        rcases rest with _ | ⟨b₁, rest⟩
        · cases h
        · obtain ⟨rfl, rfl⟩ := Prod.mk.inj (Except.ok.inj h)
          have := b₁.toNat_lt
          have lead : UInt8.ofNat (0x80 + ((b.toNat - 0x80) * 0x100 + b₁.toNat) / 0x100) = b :=
            ofNat_eq_of_mod (by omega)
          have low : UInt8.ofNat ((b.toNat - 0x80) * 0x100 + b₁.toNat) = b₁ :=
            ofNat_eq_of_mod (by omega)
          refine ⟨?_, ?_⟩
          · rw [Width.bound]
            omega
          · rw [Width.put, lead, low]
            rfl
      · rw [if_neg two] at h
        by_cases four : b.toNat < 0xE0
        · rw [if_pos four] at h
          rcases rest with _ | ⟨b₁, _ | ⟨b₂, _ | ⟨b₃, rest⟩⟩⟩
          · cases h
          · cases h
          · cases h
          · obtain ⟨rfl, rfl⟩ := Prod.mk.inj (Except.ok.inj h)
            have := b₁.toNat_lt
            have := b₂.toNat_lt
            have := b₃.toNat_lt
            refine ⟨?_, ?_⟩
            · rw [Width.bound]
              omega
            · rw [Width.put, Width.length, List.cons_append, List.cons_append, List.cons_append,
                List.cons_append, List.nil_append, List.cons.injEq, List.cons.injEq,
                List.cons.injEq, List.cons.injEq]
              exact ⟨(ofNat_eq_of_mod (by omega)).symm, (ofNat_eq_of_mod (by omega)).symm,
                (ofNat_eq_of_mod (by omega)).symm, (ofNat_eq_of_mod (by omega)).symm, rfl⟩
        · rw [if_neg four] at h
          cases h

/-- A number that a width holds is recognised in that width, whatever follows it. -/
theorem scan_put {n : Nat} {w : Width} (h : n < w.bound) (rest : List UInt8) :
    scan (w.put n ++ rest) = .ok (n, w) := by
  cases w with
  | one =>
      rw [Width.bound] at h
      rw [Width.put, List.cons_append, scan.eq_def]
      dsimp only
      rw [toNat_ofNat_of_lt (by omega), if_pos h]
  | two =>
      rw [Width.bound] at h
      rw [Width.put, List.cons_append, List.cons_append, scan.eq_def]
      dsimp only
      rw [toNat_ofNat_of_lt (by omega), if_neg (by omega), if_pos (by omega), UInt8.toNat_ofNat']
      congr 2
      omega
  | four =>
      rw [Width.bound] at h
      rw [Width.put, List.cons_append, List.cons_append, List.cons_append, List.cons_append,
        scan.eq_def]
      dsimp only
      rw [toNat_ofNat_of_lt (by omega), if_neg (by omega), if_neg (by omega), if_pos (by omega),
        UInt8.toNat_ofNat', UInt8.toNat_ofNat', UInt8.toNat_ofNat']
      congr 2
      omega

/-- Whether there is a number at the front, and which, is decided by four bytes. -/
theorem scan_take_four (bytes : List UInt8) : scan (bytes.take 4) = scan bytes := by
  rcases bytes with _ | ⟨a, _ | ⟨b, _ | ⟨c, _ | ⟨d, rest⟩⟩⟩⟩
  · rfl
  · rfl
  · rfl
  · rfl
  · rw [List.take_succ_cons, List.take_succ_cons, List.take_succ_cons, List.take_succ_cons,
      List.take_zero, scan.eq_def, scan.eq_def]

theorem length_put (w : Width) (n : Nat) : (w.put n).length = w.length := by
  cases w <;> rfl

/-- **What is read in a width is a number that the width holds, written in it.** -/
theorem compressed_eq_ok_iff {bytes rest : List UInt8} {n : Nat} {w : Width} :
    compressed bytes = .ok ((n, w), rest) ↔ n < w.bound ∧ bytes = w.put n ++ rest := by
  rw [compressed]
  constructor
  · intro h
    cases scanned : scan bytes with
    | error e =>
        rw [scanned] at h
        cases h
    | ok found =>
        rcases found with ⟨value, width⟩
        rw [scanned] at h
        obtain ⟨eq, rfl⟩ := Prod.mk.inj (Except.ok.inj h)
        obtain ⟨rfl, rfl⟩ := Prod.mk.inj eq
        exact scan_eq_ok scanned
  · rintro ⟨lt, rfl⟩
    rw [scan_put lt]
    dsimp only
    rw [← length_put w n, List.drop_left]

/-- A number is read from its form in any width that holds it, and from nothing else. -/
theorem unsigned_eq_ok_iff {bytes rest : List UInt8} {n : Nat} :
    unsigned bytes = .ok (n, rest) ↔ ∃ w : Width, n < w.bound ∧ bytes = w.put n ++ rest := by
  rw [unsigned, bind_eq_ok_iff]
  constructor
  · rintro ⟨⟨found, w⟩, mid, read, h⟩
    obtain ⟨rfl, rfl⟩ := pure_eq_ok_iff.1 h
    exact ⟨w, compressed_eq_ok_iff.1 read⟩
  · rintro ⟨w, held⟩
    exact ⟨(n, w), rest, compressed_eq_ok_iff.2 held, rfl⟩

/-! ### Signed numbers -/

namespace Width

theorem half_pos (w : Width) : 0 < w.half := by
  cases w <;> decide

theorem bound_eq (w : Width) : w.bound = 2 * w.half := by
  cases w <;> rfl

/-- No width holds more than the widest one. -/
theorem half_le_half_four (w : Width) : w.half ≤ four.half := by
  cases w <;> decide

theorem bound_le_bound_four (w : Width) : w.bound ≤ four.bound := by
  rw [bound_eq, bound_eq]
  exact Nat.mul_le_mul_left 2 w.half_le_half_four

/-- The stored form of a signed number is a number of the same width. -/
theorem rotate_lt (w : Width) (n : Int) : w.rotate n < w.bound := by
  have pos := w.half_pos
  have lower := Int.emod_nonneg n (b := w.half) (by omega)
  have upper := Int.emod_lt_of_pos n (b := w.half) (by omega)
  rw [rotate, bound_eq]
  split <;> omega

/-- A signed number is found again from its stored form. -/
theorem unrotate_rotate {w : Width} {n : Int} (h : w.Holds n) : w.unrotate (w.rotate n) = n := by
  obtain ⟨lower, upper⟩ := h
  have pos := w.half_pos
  rw [unrotate, rotate]
  by_cases negative : n < 0
  · have wrapped : n % (w.half : Int) = n + w.half := by
      rw [← Int.add_emod_right, Int.emod_eq_of_lt (by omega) (by omega)]
    rw [if_pos negative, wrapped, if_neg (by omega)]
    omega
  · have same : n % (w.half : Int) = n := Int.emod_eq_of_lt (by omega) upper
    rw [if_neg negative, same, if_pos (by omega)]
    omega

/-- A stored form is found again from its number. -/
theorem rotate_unrotate {w : Width} {stored : Nat} (h : stored < w.bound) :
    w.rotate (w.unrotate stored) = stored := by
  have pos := w.half_pos
  rw [bound_eq] at h
  rw [rotate, unrotate]
  by_cases even : stored % 2 = 0
  · have same : ((stored / 2 : Nat) : Int) % (w.half : Int) = (stored / 2 : Nat) :=
      Int.emod_eq_of_lt (by omega) (by omega)
    rw [if_pos even, same, if_neg (by omega)]
    omega
  · have same : (((stored / 2 : Nat) : Int) - w.half) % (w.half : Int) = (stored / 2 : Nat) := by
      rw [Int.sub_emod_right, Int.emod_eq_of_lt (by omega) (by omega)]
    rw [if_neg even, same, if_pos (by omega)]
    omega

/-- What is stored in a width stands for a signed number that the width holds. -/
theorem holds_unrotate {w : Width} {stored : Nat} (h : stored < w.bound) :
    w.Holds (w.unrotate stored) := by
  rw [bound_eq] at h
  rw [Holds, unrotate]
  split <;> omega

/-! ### The narrowest width -/

/-- The narrowest width with a property. -/
def first? (good : Width → Prop) [DecidablePred good] : Option Width :=
  if good one then some one
  else if good two then some two
  else if good four then some four
  else none

section First

variable {good : Width → Prop} [DecidablePred good] {w : Width}

theorem of_first? (h : first? good = some w) : good w := by
  rw [first?] at h
  split at h
  · next held => exact Option.some.inj h ▸ held
  · split at h
    · next held => exact Option.some.inj h ▸ held
    · split at h
      · next held => exact Option.some.inj h ▸ held
      · cases h

/-- No width with the property is shorter than the narrowest one. -/
theorem exists_first? (h : good w) : ∃ v, first? good = some v ∧ v.length ≤ w.length := by
  rw [first?]
  split
  · exact ⟨one, rfl, by cases w <;> decide⟩
  · split
    · exact ⟨two, rfl, by cases w <;> first | contradiction | decide⟩
    · split
      · exact ⟨four, rfl, by cases w <;> first | contradiction | decide⟩
      · cases w <;> contradiction

end First

/-- The narrowest width of a number is the narrowest one that holds it. -/
theorem ofUnsigned?_eq (n : Nat) : ofUnsigned? n = first? fun w => n < w.bound := rfl

theorem ofSigned?_eq (n : Int) : ofSigned? n = first? fun w => w.Holds n := rfl

/-- The narrowest width of a number holds it. -/
theorem lt_bound_of_ofUnsigned? {n : Nat} {w : Width} (h : ofUnsigned? n = some w) :
    n < w.bound :=
  of_first? ((ofUnsigned?_eq n).symm.trans h)

/-- The narrowest width of a signed number holds it. -/
theorem holds_of_ofSigned? {n : Int} {w : Width} (h : ofSigned? n = some w) : w.Holds n :=
  of_first? ((ofSigned?_eq n).symm.trans h)

/-- No width that holds a number is shorter than the narrowest one. -/
theorem exists_ofUnsigned?_of_lt {n : Nat} {w : Width} (h : n < w.bound) :
    ∃ v, ofUnsigned? n = some v ∧ v.length ≤ w.length := by
  rw [ofUnsigned?_eq]
  exact exists_first? h

/-- No width that holds a signed number is shorter than the narrowest one. -/
theorem exists_ofSigned?_of_holds {n : Int} {w : Width} (h : w.Holds n) :
    ∃ v, ofSigned? n = some v ∧ v.length ≤ w.length := by
  rw [ofSigned?_eq]
  exact exists_first? h

/-- The widest width holds all numbers that have a width at all. -/
theorem exists_ofUnsigned?_iff {n : Nat} :
    (∃ w, ofUnsigned? n = some w) ↔ n < Width.four.bound := by
  constructor
  · rintro ⟨w, h⟩
    exact Nat.lt_of_lt_of_le (lt_bound_of_ofUnsigned? h) w.bound_le_bound_four
  · exact fun lt => (exists_ofUnsigned?_of_lt lt).imp fun _ => And.left

/-- The widest width holds all signed numbers that have a width at all. -/
theorem exists_ofSigned?_iff {n : Int} : (∃ w, ofSigned? n = some w) ↔ Width.four.Holds n := by
  constructor
  · rintro ⟨w, h⟩
    have held := holds_of_ofSigned? h
    have widest := w.half_le_half_four
    rw [Holds] at held ⊢
    omega
  · exact fun held => (exists_ofSigned?_of_holds held).imp fun _ => And.left

end Width

/-- The form of a number is what stands for it in its narrowest width. -/
theorem encodeUnsigned_eq_ok_iff_put {n : Nat} {form : List UInt8} :
    encodeUnsigned n = .ok form ↔ ∃ w, Width.ofUnsigned? n = some w ∧ form = w.put n := by
  rw [encodeUnsigned]
  cases Width.ofUnsigned? n <;> simp [eq_comm]

/-- The form of a signed number is what stands for it in its narrowest width. -/
theorem encodeSigned_eq_ok_iff_put {n : Int} {form : List UInt8} :
    encodeSigned n = .ok form ↔ ∃ w, Width.ofSigned? n = some w ∧ form = w.put (w.rotate n) := by
  rw [encodeSigned]
  cases Width.ofSigned? n <;> simp [eq_comm]

/-- Numbers below 2^29 have a form. -/
theorem encodeUnsigned_eq_ok_iff {n : Nat} :
    (∃ form, encodeUnsigned n = .ok form) ↔ n < Width.four.bound := by
  rw [← Width.exists_ofUnsigned?_iff, encodeUnsigned]
  cases Width.ofUnsigned? n <;> simp

/-- Signed numbers from -2^28 up to 2^28 have a form. -/
theorem encodeSigned_eq_ok_iff {n : Int} :
    (∃ form, encodeSigned n = .ok form) ↔ Width.four.Holds n := by
  rw [← Width.exists_ofSigned?_iff, encodeSigned]
  cases Width.ofSigned? n <;> simp

/-- **Reading a number accepts exactly what writing it produces.** -/
theorem minimalUnsigned_eq_ok_iff {bytes rest : List UInt8} {n : Nat} :
    minimalUnsigned bytes = .ok (n, rest) ↔
      ∃ form, encodeUnsigned n = .ok form ∧ bytes = form ++ rest := by
  rw [minimalUnsigned, bind_eq_ok_iff]
  constructor
  · rintro ⟨⟨found, w⟩, mid, read, h⟩
    by_cases narrow : Width.ofUnsigned? found = some w
    · simp only [if_pos narrow] at h
      obtain ⟨rfl, rfl⟩ := pure_eq_ok_iff.1 h
      exact ⟨w.put found, encodeUnsigned_eq_ok_iff_put.2 ⟨w, narrow, rfl⟩,
        (compressed_eq_ok_iff.1 read).2⟩
    · simp only [if_neg narrow] at h
      cases h
  · rintro ⟨form, written, rfl⟩
    obtain ⟨w, narrow, rfl⟩ := encodeUnsigned_eq_ok_iff_put.1 written
    refine ⟨(n, w), rest, compressed_eq_ok_iff.2 ⟨Width.lt_bound_of_ofUnsigned? narrow, rfl⟩, ?_⟩
    simp only [if_pos narrow]
    rfl

/-- **Reading a signed number accepts exactly what writing it produces.** -/
theorem minimalSigned_eq_ok_iff {bytes rest : List UInt8} {n : Int} :
    minimalSigned bytes = .ok (n, rest) ↔
      ∃ form, encodeSigned n = .ok form ∧ bytes = form ++ rest := by
  rw [minimalSigned, bind_eq_ok_iff]
  constructor
  · rintro ⟨⟨stored, w⟩, mid, read, h⟩
    obtain ⟨lt, rfl⟩ := compressed_eq_ok_iff.1 read
    by_cases narrow : Width.ofSigned? (w.unrotate stored) = some w
    · simp only [if_pos narrow] at h
      obtain ⟨rfl, rfl⟩ := pure_eq_ok_iff.1 h
      refine ⟨w.put stored, encodeSigned_eq_ok_iff_put.2 ⟨w, narrow, ?_⟩, rfl⟩
      rw [Width.rotate_unrotate lt]
    · simp only [if_neg narrow] at h
      cases h
  · rintro ⟨form, written, rfl⟩
    obtain ⟨w, narrow, rfl⟩ := encodeSigned_eq_ok_iff_put.1 written
    refine ⟨(w.rotate n, w), rest, compressed_eq_ok_iff.2 ⟨w.rotate_lt n, rfl⟩, ?_⟩
    dsimp only
    rw [Width.unrotate_rotate (Width.holds_of_ofSigned? narrow), if_pos narrow]
    rfl

end SymbolHistory.Bytes
