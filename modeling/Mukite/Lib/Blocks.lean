import Mathlib.Tactic.Common

/-!
# Functions of long texts that work block by block

A text is cut into blocks of `n` characters, and a state is changed with each of them. Whoever gets
the text in pieces keeps the beginning of the next block until it is full (`Absorber`). However the
text comes in, the state is that of its whole blocks, and what is kept is what they leave
(`absorbAll_eq`).

* `blocks`, `leftover` — the whole blocks of a text, and what is behind them
* `Absorber`, `absorb` — a state with the beginning of a block, and one character more
-/

namespace Blocks

variable {α σ : Type*}

/-! ## A text in one piece -/

/-- The whole blocks of a text. -/
def blocks (n : Nat) (xs : List α) : List (List α) :=
  (List.range (xs.length / n)).map (fun i => (xs.drop (i * n)).take n)

/-- What is behind the whole blocks. -/
def leftover (n : Nat) (xs : List α) : List α := xs.drop (xs.length / n * n)

variable {n : Nat} {xs ys : List α} {a : α}

theorem blocks_short (h : xs.length < n) : blocks n xs = [] := by
  unfold blocks
  rw [Nat.div_eq_of_lt h]
  rfl

theorem leftover_short (h : xs.length < n) : leftover n xs = xs := by
  unfold leftover
  rw [Nat.div_eq_of_lt h, Nat.zero_mul, List.drop_zero]

theorem blocks_append (hn : 0 < n) (h : xs.length = n) (ys : List α) :
    blocks n (xs ++ ys) = xs :: blocks n ys := by
  have hcount : (xs ++ ys).length / n = ys.length / n + 1 := by
    rw [List.length_append, h, Nat.add_comm, Nat.add_div_right _ hn]
  unfold blocks
  rw [hcount, List.range_succ_eq_map, List.map_cons, List.map_map]
  congr 1
  · rw [Nat.zero_mul, List.drop_zero, ← h, List.take_left]
  · refine List.map_congr_left fun i _ => ?_
    have hdrop : (xs ++ ys).drop ((i + 1) * n) = ys.drop (i * n) := by
      rw [Nat.succ_mul, Nat.add_comm, ← h, List.drop_length_add_append]
    simp only [Function.comp_apply]
    rw [hdrop]

theorem leftover_append (hn : 0 < n) (h : xs.length = n) (ys : List α) :
    leftover n (xs ++ ys) = leftover n ys := by
  have hcount : (xs ++ ys).length / n = ys.length / n + 1 := by
    rw [List.length_append, h, Nat.add_comm, Nat.add_div_right _ hn]
  unfold leftover
  rw [hcount, Nat.succ_mul, Nat.add_comm, ← h, List.drop_length_add_append]

theorem length_leftover_lt (hn : 0 < n) (xs : List α) : (leftover n xs).length < n := by
  unfold leftover
  rw [List.length_drop, Nat.mul_comm, ← Nat.mod_eq_sub]
  exact Nat.mod_lt _ hn

/-! ## A text in pieces -/

/-- A state, and the beginning of the next block. -/
structure Absorber (σ α : Type*) where
  state : σ
  pending : List α

/-- One more character; a block that is full changes the state. -/
def absorb (n : Nat) (compress : σ → List α → σ) (s : Absorber σ α) (a : α) : Absorber σ α :=
  if (s.pending ++ [a]).length = n then
    { state := compress s.state (s.pending ++ [a]), pending := [] }
  else { s with pending := s.pending ++ [a] }

/-- All the characters of a text. -/
def absorbAll (n : Nat) (compress : σ → List α → σ) (s : Absorber σ α) (xs : List α) :
    Absorber σ α :=
  xs.foldl (absorb n compress) s

variable {compress : σ → List α → σ} {s : Absorber σ α}

theorem absorbAll_append : absorbAll n compress s (xs ++ ys)
    = absorbAll n compress (absorbAll n compress s xs) ys := List.foldl_append

/-- **However a text comes in, the state is that of its whole blocks.** -/
theorem absorbAll_eq (hn : 0 < n) : ∀ {xs : List α} {s : Absorber σ α}, s.pending.length < n →
    absorbAll n compress s xs =
      { state := (blocks n (s.pending ++ xs)).foldl compress s.state
        pending := leftover n (s.pending ++ xs) }
  | [], s, hs => by
    rw [List.append_nil, blocks_short hs, leftover_short hs]
    rfl
  | a :: xs, s, hs => by
    have happend : s.pending ++ a :: xs = (s.pending ++ [a]) ++ xs := by simp
    show absorbAll n compress (absorb n compress s a) xs = _
    unfold absorb
    split
    · next hfull =>
      rw [absorbAll_eq hn (by exact hn), happend, blocks_append hn hfull, leftover_append hn hfull]
      rfl
    · next hfull =>
      rw [List.length_append, List.length_singleton] at hfull
      rw [absorbAll_eq hn (by
        show (s.pending ++ [a]).length < n
        rw [List.length_append, List.length_singleton]
        omega), happend]

/-- The blocks of a text whose end is `ys`, from what its beginning has left. -/
theorem foldl_blocks_append (hn : 0 < n) (xs ys : List α) (state : σ) :
    (blocks n (xs ++ ys)).foldl compress state
      = (blocks n (leftover n xs ++ ys)).foldl compress ((blocks n xs).foldl compress state) := by
  have hwhole : absorbAll n compress ⟨state, []⟩ (xs ++ ys) = _ := absorbAll_eq hn hn
  have hfront : absorbAll n compress ⟨state, []⟩ xs = _ := absorbAll_eq hn hn
  rw [absorbAll_append, hfront, absorbAll_eq hn (length_leftover_lt hn _)] at hwhole
  exact (congrArg Absorber.state hwhole).symm

end Blocks
