import Mathlib.Tactic.Common
import Mathlib.Algebra.Group.Nat.Defs
import Mathlib.Algebra.Group.Int.Defs

/-!
# Reading back what was written

A reader takes a value off the front of a byte string, or fails. `Reads w g a` says that `g`
reads `a` off `w` and stops exactly at its end, whatever follows; `Rejects w g` that it fails
on `w`, whatever follows. Both are put together field by field with the `bind` rules, so that a
format with many fields is verified in the order in which it is written. `Yields P g` says that
whatever `g` reads, off any input, has `P`.
-/

namespace Codec

variable {β α γ : Type}

/-- Take a value off the front of the input. -/
abbrev Reader (β α : Type) := StateT (List β) Option α

/-- `g` reads `a` off `w` and leaves whatever follows. -/
def Reads (w : List β) (g : Reader β α) (a : α) : Prop :=
  ∀ rest, g.run (w ++ rest) = some (a, rest)

/-- `g` fails on every input that starts with `w`. -/
def Rejects (w : List β) (g : Reader β α) : Prop :=
  ∀ rest, g.run (w ++ rest) = none

theorem Reads.pure (a : α) : Reads ([] : List β) (Pure.pure a) a := fun _ => rfl

/-- **What is written one after the other is read one after the other.** -/
theorem Reads.bind {w v : List β} {g : Reader β α} {f : α → Reader β γ} {a : α} {c : γ}
    (hg : Reads w g a) (hf : Reads v (f a) c) : Reads (w ++ v) (g >>= f) c := by
  intro rest
  rw [List.append_assoc, StateT.run_bind, hg]
  exact hf rest

theorem Reads.map {w : List β} {g : Reader β α} {a : α} (hg : Reads w g a) (f : α → γ) :
    Reads w (f <$> g) (f a) := by
  intro rest
  rw [StateT.run_map, hg]
  rfl

theorem Reads.ret {w : List β} {g : Reader β α} {a : α} (hg : Reads w g a) (f : α → γ) :
    Reads w (g >>= fun x => Pure.pure (f x)) (f a) := by
  intro rest
  rw [StateT.run_bind, hg]
  rfl

/-- A value reads in one way only. -/
theorem Reads.unique {w : List β} {g : Reader β α} {a b : α} (ha : Reads w g a)
    (hb : Reads w g b) : a = b := by
  have h := (ha []).symm.trans (hb [])
  simpa using h

theorem Reads.not_rejects {w : List β} {g : Reader β α} {a : α} (ha : Reads w g a) :
    ¬ Rejects w g := by
  intro h
  have := (ha []).symm.trans (h [])
  cases this

/-- Give up. -/
def fail : Reader β α := fun _ => none

theorem rejects_fail (w : List β) : Rejects w (fail : Reader β α) := fun _ => rfl

/-- `g` reads something off `w`. -/
def Accepts (w : List β) (g : Reader β α) : Prop := ∃ a, Reads w g a

theorem Accepts.not_rejects {w : List β} {g : Reader β α} (h : Accepts w g) : ¬ Rejects w g := by
  obtain ⟨a, ha⟩ := h
  exact ha.not_rejects

theorem Rejects.bind_left {w v : List β} {g : Reader β α} {f : α → Reader β γ}
    (hg : Rejects w g) : Rejects (w ++ v) (g >>= f) := by
  intro rest
  rw [List.append_assoc, StateT.run_bind, hg]
  rfl

theorem Rejects.bind_right {w v : List β} {g : Reader β α} {f : α → Reader β γ} {a : α}
    (hg : Reads w g a) (hf : Rejects v (f a)) : Rejects (w ++ v) (g >>= f) := by
  intro rest
  rw [List.append_assoc, StateT.run_bind, hg]
  exact hf rest

/-! ## What a reader yields -/

/-- Whatever `g` reads has `P`. -/
def Yields (P : α → Prop) (g : Reader β α) : Prop :=
  ∀ input a rest, g.run input = some (a, rest) → P a

theorem yields_fail (P : α → Prop) : Yields P (fail : Reader β α) := by
  intro input a rest h
  cases h

theorem Yields.pure {P : α → Prop} {a : α} (h : P a) : Yields P (Pure.pure a : Reader β α) := by
  intro input b rest hb
  cases hb
  exact h

theorem Yields.bind {P : γ → Prop} {Q : α → Prop} {g : Reader β α} {f : α → Reader β γ}
    (hg : Yields Q g) (hf : ∀ a, Q a → Yields P (f a)) : Yields P (g >>= f) := by
  intro input c rest h
  rw [StateT.run_bind] at h
  obtain ⟨⟨a, rest'⟩, ha, hc⟩ := Option.bind_eq_some_iff.mp h
  exact hf a (hg input a rest' ha) rest' c rest hc

/-- As `bind`, when it does not matter what is read first. -/
theorem Yields.bind_right {P : γ → Prop} {g : Reader β α} {f : α → Reader β γ}
    (hf : ∀ a, Yields P (f a)) : Yields P (g >>= f) :=
  Yields.bind (fun _ _ _ _ => trivial) (fun a _ => hf a)

/-! ## Blocks of a known length -/

/-- Take `n` bytes. -/
def takeN (n : Nat) : Reader β (List β) := fun input =>
  if n ≤ input.length then some (input.take n, input.drop n) else none

theorem reads_takeN (w : List β) : Reads w (takeN w.length) w := by
  intro rest
  show (if w.length ≤ (w ++ rest).length then _ else _) = _
  rw [if_pos (by simp), List.take_left, List.drop_left]

/-! ## Marked sequences -/

/-- Every item behind the mark `more`, and the mark `stop` at the end. -/
def marked (more stop : List β) (f : α → List β) (items : List α) : List β :=
  items.flatMap (fun x => more ++ f x) ++ stop

@[simp] theorem marked_nil {more stop : List β} {f : α → List β} : marked more stop f [] = stop :=
  rfl

@[simp] theorem marked_cons {more stop : List β} {f : α → List β} {x : α} {xs : List α} :
    marked more stop f (x :: xs) = more ++ (f x ++ marked more stop f xs) := by
  simp [marked]

theorem marked_map {more stop : List β} {f : γ → List β} {h : α → γ} {items : List α} :
    marked more stop f (items.map h) = marked more stop (fun x => f (h x)) items := by
  simp only [marked, List.flatMap_map]

/-- Two parts that can only get longer are the same together when each of them is. -/
theorem append_eq_append_iff_of_le {a b c d : List β} (hac : a.length ≤ c.length)
    (hbd : b.length ≤ d.length) : a ++ b = c ++ d ↔ a = c ∧ b = d := by
  constructor
  · intro h
    have hlen := congrArg List.length h
    simp only [List.length_append] at hlen
    exact List.append_inj h (by omega)
  · rintro ⟨rfl, rfl⟩
    rfl

section Cut

variable {more stop : List β} {f g : α → List β}

/-- Cutting a sequence short and its items short makes it no longer. -/
theorem length_marked_take_le (hfg : ∀ x, (f x).length ≤ (g x).length) (items : List α) (n : Nat) :
    (marked more stop f (items.take n)).length ≤ (marked more stop g items).length := by
  induction items generalizing n with
  | nil => simp
  | cons x xs ih =>
    cases n with
    | zero =>
      simp [marked]
      omega
    | succ n =>
      have hx := hfg x
      have hxs := ih n
      simp only [List.take_succ_cons, marked_cons, List.length_append]
      omega

/-- **A sequence that is cut short is whole only if nothing is cut.** -/
theorem marked_take_eq_iff (hmore : more ≠ []) (hfg : ∀ x, (f x).length ≤ (g x).length)
    (items : List α) (n : Nat) :
    marked more stop f (items.take n) = marked more stop g items ↔
      items.length ≤ n ∧ ∀ x ∈ items, f x = g x := by
  induction items generalizing n with
  | nil => simp
  | cons x xs ih =>
    cases n with
    | zero =>
      have hpos := List.length_pos_iff.mpr hmore
      constructor
      · intro h
        have hlen := congrArg List.length h
        have hstop := @length_marked_take_le β α more stop f g hfg xs 0
        simp only [List.take_zero, marked_nil, marked_cons, List.length_append] at hlen hstop
        omega
      · rintro ⟨h, -⟩
        exact absurd h (Nat.not_succ_le_zero _)
    | succ n =>
      rw [List.take_succ_cons, marked_cons, marked_cons, List.append_right_inj,
        append_eq_append_iff_of_le (hfg x) (length_marked_take_le hfg xs n), ih n]
      simp only [List.length_cons, Nat.add_le_add_iff_right, List.forall_mem_cons]
      exact and_left_comm

end Cut

/-! ## Little-endian integers -/

/-- The low `n` bytes of `v`, least significant first. -/
def leBytes : Nat → Nat → List UInt8
  | 0, _ => []
  | n + 1, v => UInt8.ofNat v :: leBytes n (v / 256)

def leValue : List UInt8 → Nat
  | [] => 0
  | b :: bs => b.toNat + 256 * leValue bs

@[simp] theorem length_leBytes : ∀ n v, (leBytes n v).length = n
  | 0, _ => rfl
  | n + 1, v => by rw [leBytes, List.length_cons, length_leBytes n]

theorem leValue_leBytes : ∀ {n v : Nat}, v < 256 ^ n → leValue (leBytes n v) = v
  | 0, v, h => by
    have : v = 0 := by simpa using h
    rw [this]
    rfl
  | n + 1, v, h => by
    have hdiv : v / 256 < 256 ^ n := by
      rw [Nat.div_lt_iff_lt_mul (by decide)]
      rwa [Nat.pow_succ] at h
    rw [leBytes, leValue, leValue_leBytes hdiv, UInt8.toNat_ofNat']
    exact Nat.mod_add_div v 256

/-- An integer in two's complement, `n` bytes wide. -/
def intBytes (n : Nat) (v : Int) : List UInt8 := leBytes n (v % (256 ^ n : Nat)).toNat

def intValue (n : Nat) (bs : List UInt8) : Int := Int.bmod (leValue bs) (256 ^ n)

@[simp] theorem length_intBytes (n : Nat) (v : Int) : (intBytes n v).length = n :=
  length_leBytes _ _

/-- Reading an integer back gives it modulo the width of the field. -/
theorem intValue_intBytes_bmod (n : Nat) (v : Int) :
    intValue n (intBytes n v) = Int.bmod v (256 ^ n) := by
  have hpos : (0 : Int) < (256 ^ n : Nat) := by exact_mod_cast Nat.pow_pos (by decide)
  have hnn : 0 ≤ v % (256 ^ n : Nat) := Int.emod_nonneg _ (Int.ne_of_gt hpos)
  have hlt : (v % (256 ^ n : Nat)).toNat < 256 ^ n := by
    have := Int.emod_lt_of_pos v hpos
    omega
  unfold intValue intBytes
  rw [leValue_leBytes hlt, Int.toNat_of_nonneg hnn, Int.emod_bmod]

theorem intValue_intBytes {n : Nat} {v : Int} (hl : -(256 ^ n : Nat) ≤ 2 * v)
    (hu : 2 * v < (256 ^ n : Nat)) : intValue n (intBytes n v) = v := by
  rw [intValue_intBytes_bmod]
  exact Int.bmod_eq_of_le_mul_two (by omega) (by omega)

end Codec
