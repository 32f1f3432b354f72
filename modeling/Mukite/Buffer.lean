import Mathlib.Tactic.Common
import Mathlib.Algebra.Group.Nat.Defs
import Mathlib.Algebra.Group.Int.Defs
import Mukite.Lib.Circle

/-!
# Buffers

`xmcomp/src/buffer.h`, `xmcomp/src/buffer.c`. A `Buffer` or `BufferPtr` that owns its bytes is
modelled by value (`Buffer`), with `none` for the null pointer. A `BufferPtr` that points into a
stanza is modelled by two offsets into the memory block of the stanza (`Span`), because
`packet_cleanup` overwrites that block while the pointers stay.
-/

namespace Mukite

abbrev Bytes := List UInt8

/-- The byte of an ASCII character. -/
def ch (c : Char) : UInt8 := UInt8.ofNat c.toNat

/-- The bytes of an ASCII literal, without the terminator. -/
def lit (s : String) : Bytes := s.toList.map ch

theorem lit_append (s t : String) : lit (s ++ t) = lit s ++ lit t := by
  simp [lit]

/-- The characters of a literal, without decoding it: this is how a literal is computed with. -/
theorem lit_ofList (chars : List Char) : lit (String.ofList chars) = chars.map ch := by
  unfold lit
  rw [String.toList_ofList]

/-! ## Buffers by value -/

/-- `Buffer` and `BufferPtr` by value. `none` is a null `data`. -/
abbrev Buffer := Option Bytes

/-- The bytes, none for a null pointer. -/
def bptBytes (b : Buffer) : Bytes := b.getD []

/-- `BPT_SIZE`. -/
def bptSize (b : Buffer) : Nat := (bptBytes b).length

/-- `BPT_BLANK`: null or empty. -/
def bptBlank (b : Buffer) : Bool := bptSize b == 0

@[simp] theorem bptBytes_none : bptBytes none = [] := rfl
@[simp] theorem bptBytes_some (b : Bytes) : bptBytes (some b) = b := rfl
@[simp] theorem bptSize_none : bptSize none = 0 := rfl
@[simp] theorem bptSize_some (b : Bytes) : bptSize (some b) = b.length := rfl

/-- `BPT_EQ_BIN`, also `BPT_EQ_LIT` with the bytes of a literal. -/
def bptEqBin (bin : Bytes) (b : Buffer) : Bool := bptBytes b == bin

/--
`BPT_SETTER`: the new value of the target and the result.

A value above the limit leaves the target as it was.
-/
def bptSetter (target newBuffer : Buffer) (limit : Nat) : Buffer × Bool :=
  match newBuffer with
  | none => (none, true)
  | some b => if limit < b.length then (target, false) else (some b, true)

theorem bptSetter_size {target newBuffer : Buffer} {limit : Nat} (h : bptSize target ≤ limit) :
    bptSize (bptSetter target newBuffer limit).1 ≤ limit := by
  cases newBuffer with
  | none => simp [bptSetter]
  | some b =>
    by_cases hb : limit < b.length
    · simpa [bptSetter, hb] using h
    · simpa [bptSetter, hb] using Nat.not_lt.mp hb

theorem bptSetter_some {target : Buffer} {b : Bytes} {limit : Nat} (h : b.length ≤ limit) :
    bptSetter target (some b) limit = (some b, true) := by
  simp [bptSetter, Nat.not_lt.mpr h]

/-! ## Buffers inside a stanza -/

/-- `BufferPtr` into a memory block: the offsets of `data` and `end`. -/
structure Span where
  data : Nat
  stop : Nat
deriving DecidableEq, Repr

namespace Span

/-- `BPT_SIZE`, negative when `data` has run past `end`. -/
def size (s : Span) : Int := s.stop - s.data

def bytes (mem : Bytes) (s : Span) : Bytes := (mem.drop s.data).take (s.stop - s.data)

/-- `buffer_ptr_cpy`, `buffer__ptr_cpy`. Copying a negative number of bytes is undefined. -/
def copy (mem : Bytes) (s : Span) : Option Bytes :=
  if s.stop < s.data then none else some (s.bytes mem)

/-- `BPT_EQ_BIN`, `BUF_EQ_BIN`. -/
def eqBin (mem : Bytes) (s : Span) (bin : Bytes) : Bool :=
  s.size == bin.length && s.bytes mem == bin

/-- `BPT_EQ_LIT`, `BUF_EQ_LIT`. -/
def eqLit (mem : Bytes) (s : Span) (literal : String) : Bool := s.eqBin mem (lit literal)

end Span

/-- `memcpy` to position `pos` of a block. -/
def memcpy (mem : Bytes) (pos : Nat) (bytes : Bytes) : Bytes :=
  mem.take pos ++ bytes ++ mem.drop (pos + bytes.length)

theorem length_memcpy {mem bytes : Bytes} {pos : Nat} (h : pos + bytes.length ≤ mem.length) :
    (memcpy mem pos bytes).length = mem.length :=
  Circle.length_overwrite h

theorem getElem?_memcpy {mem bytes : Bytes} {pos i : Nat} (h : pos + bytes.length ≤ mem.length) :
    (memcpy mem pos bytes)[i]? =
      if pos ≤ i ∧ i < pos + bytes.length then bytes[i - pos]? else mem[i]? :=
  Circle.getElem?_overwrite h

namespace Span

theorem getElem?_bytes {mem : Bytes} {s : Span} {i : Nat} :
    (s.bytes mem)[i]? = if i < s.stop - s.data then mem[s.data + i]? else none := by
  unfold bytes
  rw [List.getElem?_take, List.getElem?_drop]

theorem length_bytes {mem : Bytes} {s : Span} (h : s.stop ≤ mem.length) :
    (s.bytes mem).length = s.stop - s.data := by
  unfold bytes
  rw [List.length_take, List.length_drop]
  omega

/-- **What is written elsewhere is not read.** -/
theorem bytes_memcpy {mem bytes : Bytes} {pos : Nat} {s : Span}
    (hfit : pos + bytes.length ≤ mem.length)
    (h : pos + bytes.length ≤ s.data ∨ s.stop ≤ pos) :
    s.bytes (memcpy mem pos bytes) = s.bytes mem := by
  apply List.ext_getElem?
  intro i
  rw [getElem?_bytes, getElem?_bytes]
  split
  · rw [getElem?_memcpy hfit, if_neg (by omega)]
  · rfl

end Span

/-! ## Machine integers -/

/-- An `int` keeps the low 32 bits of a result, read in two's complement. -/
def cInt (v : Int) : Int := Int.bmod v (2 ^ 32)

/-- The values of an `int`. -/
def IsInt (v : Int) : Prop := -2 ^ 31 ≤ v ∧ v < 2 ^ 31

instance (v : Int) : Decidable (IsInt v) := inferInstanceAs (Decidable (_ ∧ _))

theorem cInt_eq {v : Int} (h : IsInt v) : cInt v = v :=
  Int.bmod_eq_of_le_mul_two (by have := h.1; omega) (by have := h.2; omega)

/-- `strtol` saturates at the ends of `long`. -/
def clampLong (v : Int) : Int := max (-2 ^ 63) (min (2 ^ 63 - 1) v)

/-! ## `btoi` -/

/-- `isspace` in the C locale. -/
def isspace (c : UInt8) : Bool := c == 32 || (9 ≤ c && c ≤ 13)

/-- The value of the leading decimal digits. -/
def leadingDigits : Bytes → Nat → Nat
  | [], acc => acc
  | c :: cs, acc => if 48 ≤ c && c ≤ 57 then leadingDigits cs (acc * 10 + (c - 48).toNat) else acc

/-- White space, an optional sign, digits. -/
def decimalValue (s : Bytes) : Int :=
  match s.dropWhile isspace with
  | [] => 0
  | c :: cs =>
    if c == ch '-' then -(leadingDigits cs 0 : Int)
    else if c == ch '+' then leadingDigits cs 0
    else leadingDigits (c :: cs) 0

/-- `atoi`: `strtol` in base 10, converted to `int`. -/
def atoi (s : Bytes) : Int := cInt (clampLong (decimalValue s))

/-- The buffer of `btoi` holds 20 characters and the terminator; longer text counts as 0. -/
def btoi (mem : Bytes) (s : Span) : Int :=
  if s.size < 0 || 21 ≤ s.size then 0 else atoi (s.bytes mem)

end Mukite
