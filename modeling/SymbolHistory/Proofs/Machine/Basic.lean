import SymbolHistory.Parallel
import SymbolHistory.Error
import Mathlib.Logic.Basic

/-!
# Machine operations

The library computes with numbers of any size, and asks for parts of lists that may not be there. A
machine does neither: its numbers have a fixed number of bits, and a slice, an index, a shift or a
sum that is out of range stops the program. Here are the operations as a machine has them, each with
the trap that it ends in, and what it takes for them to go through.

Programs made of these operations either give a result, or fail with an error as the library does,
or run into a trap. To show that a program never runs into a trap it is shown equal to a function of
the library, by `ofExcept`, which knows no traps.

## Main definitions

* `Trap`, `Stop`, `Exec` : what can happen when machine operations are carried out.
* `ofExcept` : a result of the library as one of a machine.
* `slice`, `index`, `store`, `copy`, `shiftLeft`, `shiftRight`, `add`, `sub`, `mul`, `addSigned` :
  operations that can trap.
* `checkedAdd` : a sum that does not trap but tells that there is none.
* `Mirrors` : a machine gives what belongs to a result of the library.

## Main results

* `ne_trap_of_eq_ofExcept` : a program that does what the library does never runs into a trap.
-/

namespace SymbolHistory.Machine

/-- An operation that a machine refuses. -/
inductive Trap where
  /-- A slice that stops before it starts, or behind the end. -/
  | slice (start stop length : Nat)
  /-- An index that is not there. -/
  | index (place length : Nat)
  /-- A copy to a place of another length. -/
  | copy (length found : Nat)
  /-- A shift by as many bits as the number has, or by more. -/
  | shift (amount bits : Nat)
  /-- A result that does not fit into its type. -/
  | overflow
  deriving DecidableEq, Repr

/-- Why a program ends without a result. -/
inductive Stop where
  /-- It ran into a trap. -/
  | trap (trap : Trap)
  /-- It failed as it is meant to fail. -/
  | error (e : Error)
  deriving DecidableEq, Repr

/-- What comes of a program. -/
abbrev Exec := Except Stop

/-- Fails with an error. -/
def fail {α : Type} (e : Error) : Exec α :=
  .error (.error e)

/-- Runs into a trap. -/
def stuck {α : Type} (trap : Trap) : Exec α :=
  .error (.trap trap)

/-- What comes of a program that does the same as a function of the library. -/
def ofExcept {α : Type} : Except Error α → Exec α
  | .ok a => pure a
  | .error e => fail e

/-- No object in memory has so many bytes. -/
def objectBound : Nat := 0x8000000000000000

section Operations

variable {α : Type}

/-- The items from `start` up to `stop`. -/
def slice (items : List α) (start stop : Nat) : Exec (List α) :=
  if start ≤ stop ∧ stop ≤ items.length then pure ((items.drop start).take (stop - start))
  else stuck (.slice start stop items.length)

example : slice [1, 2, 3] 2 4 = stuck (.slice 2 4 3) := rfl

/-- The items from `start` on. -/
def sliceFrom (items : List α) (start : Nat) : Exec (List α) :=
  if start ≤ items.length then pure (items.drop start)
  else stuck (.slice start items.length items.length)

/-- The item at a place. -/
def index (items : List α) (place : Nat) : Exec α :=
  match items[place]? with
  | some item => pure item
  | none => stuck (.index place items.length)

/-- An array with another item at a place. -/
def store (items : Array α) (place : Nat) (item : α) : Exec (Array α) :=
  if h : place < items.size then pure (items.set place item h) else stuck (.index place items.size)

/-- Items copied to a place with room for `length` of them. -/
def copy (length : Nat) (items : List α) : Exec (List α) :=
  if items.length = length then pure items else stuck (.copy length items.length)

/-- A number with `bits` bits shifted up. What is shifted out is lost. -/
def shiftLeft (bits n amount : Nat) : Exec Nat :=
  if amount < bits then pure ((n <<< amount) % (1 <<< bits)) else stuck (.shift amount bits)

/-- A number with `bits` bits shifted down. -/
def shiftRight (bits n amount : Nat) : Exec Nat :=
  if amount < bits then pure (n >>> amount) else stuck (.shift amount bits)

/-- A sum in a type with `bound` values. -/
def add (bound a b : Nat) : Exec Nat :=
  if a + b < bound then pure (a + b) else stuck .overflow

/-- A difference. -/
def sub (a b : Nat) : Exec Nat :=
  if b ≤ a then pure (a - b) else stuck .overflow

/-- A product in a type with `bound` values. -/
def mul (bound a b : Nat) : Exec Nat :=
  if a * b < bound then pure (a * b) else stuck .overflow

/-- A sum of signed numbers with 64 bits. -/
def addSigned (a b : Int) : Exec Int :=
  if -(objectBound : Int) ≤ a + b ∧ a + b < objectBound then pure (a + b) else stuck .overflow

/-- A sum in a type with `bound` values, or none if it does not fit. -/
def checkedAdd (bound a b : Nat) : Option Nat :=
  if a + b < bound then some (a + b) else none

/-- A slice with its ends in order and inside does not trap. -/
theorem slice_of_le {items : List α} {start stop : Nat} (h : start ≤ stop)
    (h' : stop ≤ items.length) :
    slice items start stop = pure ((items.drop start).take (stop - start)) :=
  if_pos ⟨h, h'⟩

/-- A slice up to the end does not trap if it starts inside. -/
theorem sliceFrom_of_le {items : List α} {start : Nat} (h : start ≤ items.length) :
    sliceFrom items start = pure (items.drop start) :=
  if_pos h

/-- An index is inside where there is an item. -/
theorem index_of_getElem? {items : List α} {place : Nat} {item : α}
    (h : items[place]? = some item) : index items place = pure item := by
  rw [index, h]

/-- Storing at a place inside does not trap. -/
theorem store_of_lt {items : Array α} {place : Nat} (item : α) (h : place < items.size) :
    store items place item = pure (items.set place item h) :=
  dif_pos h

/-- Copying does not trap if the lengths are equal. -/
theorem copy_of_length {items : List α} {length : Nat} (h : items.length = length) :
    copy length items = pure items :=
  if_pos h

/-- A shift to the left does not trap if it is by fewer bits than there are. -/
theorem shiftLeft_of_lt {bits n amount : Nat} (h : amount < bits) :
    shiftLeft bits n amount = pure ((n <<< amount) % (1 <<< bits)) :=
  if_pos h

/-- Nor does a shift to the right. -/
theorem shiftRight_of_lt {bits n amount : Nat} (h : amount < bits) :
    shiftRight bits n amount = pure (n >>> amount) :=
  if_pos h

/-- A sum that fits does not overflow. -/
theorem add_of_lt {bound a b : Nat} (h : a + b < bound) : add bound a b = pure (a + b) :=
  if_pos h

/-- A difference that is not negative does not. -/
theorem sub_of_le {a b : Nat} (h : b ≤ a) : sub a b = pure (a - b) :=
  if_pos h

/-- A product that fits does not. -/
theorem mul_of_lt {bound a b : Nat} (h : a * b < bound) : mul bound a b = pure (a * b) :=
  if_pos h

/-- A signed sum inside the bounds does not. -/
theorem addSigned_of_lt {a b : Int} (h : -(objectBound : Int) ≤ a + b) (h' : a + b < objectBound) :
    addSigned a b = pure (a + b) :=
  if_pos ⟨h, h'⟩

/-- A checked sum that fits is there. -/
theorem checkedAdd_of_lt {bound a b : Nat} (h : a + b < bound) :
    checkedAdd bound a b = some (a + b) :=
  if_pos h

end Operations

section Results

variable {α β : Type}

/-- A result is a program that has it. -/
@[simp] theorem ofExcept_ok (a : α) : ofExcept (.ok a) = pure a := rfl

/-- So is a result that is stated as such. -/
@[simp] theorem ofExcept_pure (a : α) : ofExcept (pure a) = pure a := rfl

/-- One function after the other is one program after the other. -/
theorem ofExcept_bind (first : Except Error α) (next : α → Except Error β) :
    ofExcept (first >>= next) = ofExcept first >>= fun a => ofExcept (next a) := by
  cases first <;> rfl

/-- So what is made of a result is made of that of the program. -/
theorem ofExcept_map (f : α → β) (first : Except Error α) :
    ofExcept (f <$> first) = f <$> ofExcept first := by
  cases first <;> rfl

/-- A choice between functions is the same choice between programs. -/
theorem ofExcept_ite {c : Prop} [Decidable c] (first second : Except Error α) :
    ofExcept (if c then first else second) = if c then ofExcept first else ofExcept second :=
  apply_ite _ _ _ _

/-- A machine that does for every item what the library does, does the same for all of them. -/
theorem ofExcept_mapM {step : α → Exec β} {function : α → Except Error β} {items : List α}
    (h : ∀ item ∈ items, step item = ofExcept (function item)) :
    items.mapM step = ofExcept (items.mapM function) := by
  induction items with
  | nil => rfl
  | cons item items ih =>
    rw [List.mapM_cons, List.mapM_cons, h item (List.mem_cons_self ..),
      ih fun other mem => h other (List.mem_cons_of_mem _ mem), ofExcept_bind]
    refine bind_congr fun b => ?_
    rw [ofExcept_bind]
    rfl

/-- So it does for all of them in parallel, if the same one is ahead of the others. -/
theorem ofExcept_mapParallel (lead : Nat) {step : α → Exec β} {function : α → Except Error β}
    {items : List α} (h : ∀ item ∈ items, step item = ofExcept (function item)) :
    mapParallel lead step items = ofExcept (mapParallel lead function items) := by
  rw [mapParallel, mapParallel]
  cases found : items[lead]? with
  | none => exact ofExcept_mapM h
  | some item =>
    dsimp only
    rw [h item (List.mem_of_getElem? found), ofExcept_bind, ofExcept_mapM h]

/-- A machine and the library both fail, and alike, or have results that belong together. -/
inductive Mirrors (Belongs : α → β → Prop) : Exec α → Except Error β → Prop where
  /-- Both fail. -/
  | failed (e : Error) : Mirrors Belongs (fail e) (.error e)
  /-- Both have a result. -/
  | done {a : α} {b : β} (h : Belongs a b) : Mirrors Belongs (pure a) (.ok b)

/-- What mirrors a result in one sense does so in a weaker one. -/
theorem Mirrors.imp {Belongs Belongs' : α → β → Prop} {program : Exec α} {result : Except Error β}
    (h : Mirrors Belongs program result) (h' : ∀ a b, Belongs a b → Belongs' a b) :
    Mirrors Belongs' program result := by
  cases h with
  | failed e => exact .failed e
  | done belongs => exact .done (h' _ _ belongs)

/-- The library may do more with its result. -/
theorem Mirrors.map_right {γ : Type} {Belongs : α → β → Prop} {Belongs' : α → γ → Prop}
    {program : Exec α} {result : Except Error β} (f : β → γ) (h : Mirrors Belongs program result)
    (h' : ∀ a b, Belongs a b → Belongs' a (f b)) : Mirrors Belongs' program (f <$> result) := by
  cases h with
  | failed e => exact .failed e
  | done belongs => exact .done (h' _ _ belongs)

/-- Programs one after the other mirror functions one after the other. -/
theorem Mirrors.bind {γ δ : Type} {Belongs : α → β → Prop} {Belongs' : γ → δ → Prop}
    {program : Exec α} {result : Except Error β} {next : α → Exec γ}
    {following : β → Except Error δ}
    (h : Mirrors Belongs program result)
    (h' : ∀ a b, Belongs a b → Mirrors Belongs' (next a) (following b)) :
    Mirrors Belongs' (program >>= next) (result >>= following) := by
  cases h with
  | failed e => exact .failed e
  | done belongs => exact h' _ _ belongs

/-- Where both have results, what the machine does with its own has to be what the library does. -/
theorem Mirrors.bind_eq {Belongs : α → β → Prop} {program : Exec α} {result : Except Error β}
    {γ : Type} {next : α → Exec γ} {following : β → Except Error γ}
    (h : Mirrors Belongs program result)
    (h' : ∀ a b, Belongs a b → next a = ofExcept (following b)) :
    program >>= next = ofExcept (result >>= following) := by
  cases h with
  | failed e => rfl
  | done belongs => exact h' _ _ belongs

/-- A program that does what the library does never runs into a trap. -/
theorem ne_trap_of_eq_ofExcept {program : Exec α} {result : Except Error α}
    (h : program = ofExcept result) (trap : Trap) : program ≠ .error (.trap trap) := by
  rintro rfl
  cases result <;> cases h

end Results

end SymbolHistory.Machine
