import Mathlib.Tactic.Common
import Mathlib.Data.BitVec

/-!
# Flag words

A word whose bits are switched and tested through masks: `word |= mask`, `word &= ~mask` and
`word & mask` read as a truth value.
-/

namespace Flags

variable {w : Nat} {word mask other : BitVec w} {b : Bool}

/-- `word & mask`, as a truth value. -/
def isSet (word mask : BitVec w) : Bool := word &&& mask != 0#w

/-- `word |= mask` when `b`, else `word &= ~mask`. -/
def put (word mask : BitVec w) (b : Bool) : BitVec w :=
  if b then word ||| mask else word &&& ~~~mask

/-- A switched flag reads as it was switched. -/
theorem isSet_put_self (hm : mask ≠ 0#w) : isSet (put word mask b) mask = b := by
  cases b with
  | true =>
    have h : (word ||| mask) &&& mask = mask := by ext i; simp; tauto
    simp [isSet, put, h, hm]
  | false =>
    have h : word &&& ~~~mask &&& mask = 0#w := by ext i; simp
    simp [isSet, put, h]

/-- Switching a flag leaves the other flags alone. -/
theorem isSet_put_of_disjoint (h : mask &&& other = 0#w) :
    isSet (put word mask b) other = isSet word other := by
  have hbit : ∀ i, mask.getLsbD i = true → other.getLsbD i = false := by
    intro i hi
    have := congrArg (BitVec.getLsbD · i) h
    simpa [hi] using this
  have he : put word mask b &&& other = word &&& other := by
    ext i hi
    rw [BitVec.getElem_and, BitVec.getElem_and]
    cases hm : mask.getLsbD i with
    | true =>
      have ho : other[i] = false := by rw [← BitVec.getLsbD_eq_getElem hi, hbit i hm]
      simp [ho]
    | false =>
      have hmi : mask[i] = false := by rw [← BitVec.getLsbD_eq_getElem hi, hm]
      cases b <;> simp [put, hmi]
  simp only [isSet, he]

/-- A flag of one bit is read from the word. -/
theorem isSet_bit (word : BitVec w) (i : Nat) : isSet word (1#w <<< i) = word.getLsbD i := by
  unfold isSet
  rw [← BitVec.twoPow_eq, BitVec.and_twoPow]
  cases hbit : word.getLsbD i with
  | false => simp
  | true =>
    have hi : i < w := BitVec.lt_of_getLsbD hbit
    have hne : BitVec.twoPow w i ≠ 0#w := by
      intro hzero
      have := congrArg (BitVec.getLsbD · i) hzero
      simp [hi] at this
    simp [hne]

/-- **Switching a flag to what it is changes nothing.** -/
theorem put_isSet (word : BitVec w) (i : Nat) :
    put word (1#w <<< i) (isSet word (1#w <<< i)) = word := by
  rw [isSet_bit, ← BitVec.twoPow_eq]
  ext j hj
  by_cases hji : j = i
  · subst hji
    cases hbit : word.getLsbD j <;> simp [put, ← BitVec.getLsbD_eq_getElem, hbit]
  · cases word.getLsbD i <;> simp [put, hji]

end Flags
