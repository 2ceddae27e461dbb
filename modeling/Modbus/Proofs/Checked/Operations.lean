/-!
# Operations that can fail

A list has no element past its end, a number can be too large for its type, and a conversion to a
smaller type can lose digits. `Checked` programs make this visible: each such operation looks first,
and ends the program with a `Fault` if it cannot be done. Where it can be done, a lemma says with
what result.

The programs in the modules that follow do the work of the library in this way, place by place and
byte by byte, and come to the same results as the library does without looking.
-/

namespace Modbus

/-- What can go wrong with an operation. -/
inductive Fault
  /-- A list of `length` elements has none at `index`. -/
  | noElement (index length : Nat)
  /-- A list of `length` elements cannot be divided at `index`. -/
  | noPart (index length : Nat)
  /-- A result is not a number of its type. -/
  | overflow
  /-- A number has more digits than the type it is converted to. -/
  | loss
  /-- There is nothing left to read. -/
  | exhausted
  deriving DecidableEq, Repr

/-- A program that looks before each operation that can fail. -/
abbrev Checked := Except Fault

namespace Checked

variable {α β : Type}

@[simp] theorem ok_bind {ε : Type} (x : α) (f : α → Except ε β) : (Except.ok x >>= f) = f x := rfl

/-! ## Lists -/

/-- The element at `index`. -/
def get (xs : List α) (index : Nat) : Checked α :=
  match xs[index]? with
  | some x => .ok x
  | none => .error (.noElement index xs.length)

/-- The list with a function applied to the element at `index`. -/
def update (xs : List α) (index : Nat) (f : α → α) : Checked (List α) :=
  if index < xs.length then .ok (xs.modify index f) else .error (.noElement index xs.length)

/-- The elements before `index`. -/
def upTo (xs : List α) (index : Nat) : Checked (List α) :=
  if index ≤ xs.length then .ok (xs.take index) else .error (.noPart index xs.length)

/-- The elements from `index` on. -/
def onwards (xs : List α) (index : Nat) : Checked (List α) :=
  if index ≤ xs.length then .ok (xs.drop index) else .error (.noPart index xs.length)

variable {xs : List α} {index : Nat}

theorem update_eq_ok (h : index < xs.length) (f : α → α) :
    update xs index f = .ok (xs.modify index f) :=
  if_pos h

theorem upTo_eq_ok (h : index ≤ xs.length) : upTo xs index = .ok (xs.take index) :=
  if_pos h

theorem onwards_eq_ok (h : index ≤ xs.length) : onwards xs index = .ok (xs.drop index) :=
  if_pos h

/-! ## Numbers -/

/-- How many numbers there are at least for lengths and places in lists. -/
def placeSize : Nat := 0x100000000

/-- A sum in a type of `size` numbers. -/
def add (size a b : Nat) : Checked Nat :=
  if a + b < size then .ok (a + b) else .error .overflow

/-- A product in a type of `size` numbers. -/
def mul (size a b : Nat) : Checked Nat :=
  if a * b < size then .ok (a * b) else .error .overflow

/-- A difference that is not negative. -/
def sub (a b : Nat) : Checked Nat :=
  if b ≤ a then .ok (a - b) else .error .overflow

/-- The byte in which only bit `k` is set. -/
def bit (k : Nat) : Checked UInt8 :=
  if k < 8 then .ok (UInt8.ofBitVec (BitVec.twoPow 8 k)) else .error .overflow

/-- Bit `k` of a byte, as a number. -/
def bitOf (b : UInt8) (k : Nat) : Checked UInt16 :=
  if k < 8 then .ok (b.toBitVec.getLsbD k).toUInt16 else .error .overflow

/-- A number as a byte. -/
def byte (n : Nat) : Checked UInt8 :=
  if n < 0x100 then .ok (UInt8.ofNat n) else .error .loss

/-- A number as a word. -/
def word (n : Nat) : Checked UInt16 :=
  if n < 0x10000 then .ok (UInt16.ofNat n) else .error .loss

variable {size a b k n : Nat}

theorem add_eq_ok (h : a + b < size) : add size a b = .ok (a + b) := if_pos h

theorem mul_eq_ok (h : a * b < size) : mul size a b = .ok (a * b) := if_pos h

theorem sub_eq_ok (h : b ≤ a) : sub a b = .ok (a - b) := if_pos h

theorem bit_eq_ok (h : k < 8) : bit k = .ok (UInt8.ofBitVec (BitVec.twoPow 8 k)) := if_pos h

theorem bitOf_eq_ok (h : k < 8) (b : UInt8) : bitOf b k = .ok (b.toBitVec.getLsbD k).toUInt16 :=
  if_pos h

theorem byte_eq_ok (h : n < 0x100) : byte n = .ok (UInt8.ofNat n) := if_pos h

theorem word_eq_ok (h : n < 0x10000) : word n = .ok (UInt16.ofNat n) := if_pos h

end Checked

end Modbus
