import Mathlib.Tactic.Common
import Mathlib.Logic.Function.Basic

/-!
# Singly linked lists in a memory

The cells of a memory point to each other through one field `next`. `Chain next p xs` says that
following the pointer `p` passes the cells `xs` in order and ends there. Several chains share one
memory as long as they have no cell in common, and a store to a cell of none of them changes none
of them (`Chain.store`).
-/

/-- Following `p` passes exactly the cells `xs`. -/
inductive Chain {α : Type*} (next : α → Option α) : Option α → List α → Prop
  | nil : Chain next none []
  | cons {a : α} {xs : List α} (h : Chain next (next a) xs) : Chain next (some a) (a :: xs)

namespace Chain

variable {α : Type*} {next next' : α → Option α} {p : Option α} {a b : α} {xs : List α}

theorem eq_nil (h : Chain next none xs) : xs = [] := by
  cases h
  rfl

theorem eq_none (h : Chain next p []) : p = none := by
  cases h
  rfl

/-- The first cell, and the chain behind it. -/
theorem uncons (h : Chain next (some a) xs) : ∃ ys, xs = a :: ys ∧ Chain next (next a) ys := by
  cases h with
  | cons h => exact ⟨_, rfl, h⟩

/-- A chain depends on its own cells only. -/
theorem congr (h : Chain next p xs) : (∀ a ∈ xs, next' a = next a) → Chain next' p xs := by
  induction h with
  | nil => exact fun _ => .nil
  | cons _ ih =>
    intro heq
    have hrest := ih fun a ha => heq a (List.mem_cons_of_mem _ ha)
    rw [← heq _ List.mem_cons_self] at hrest
    exact .cons hrest

variable [DecidableEq α]

/-- **A store to another cell leaves a chain as it is.** -/
theorem store (h : Chain next p xs) (ha : a ∉ xs) (q : Option α) :
    Chain (Function.update next a q) p xs := by
  refine h.congr fun b hb => ?_
  have hne : b ≠ a := fun he => ha (he ▸ hb)
  rw [Function.update_of_ne hne]

/-- A new cell in front. -/
theorem push_front (h : Chain next p xs) (ha : a ∉ xs) :
    Chain (Function.update next a p) (some a) (a :: xs) := by
  refine .cons ?_
  rw [Function.update_self]
  exact h.store ha p

/-- A new cell behind the last one. -/
theorem push_back (h : Chain next p xs) (hnodup : xs.Nodup) (ha : a ∉ xs)
    (hlast : xs.getLast? = some b) :
    Chain (Function.update (Function.update next a none) b (some a)) p (xs ++ [a]) := by
  induction h with
  | nil => cases hlast
  | @cons c zs hz ih =>
    rw [List.nodup_cons] at hnodup
    rw [List.mem_cons, not_or] at ha
    cases zs with
    | nil =>
      -- `c` is the last cell, so it now points to the new one
      obtain rfl : c = b := by simpa using hlast
      refine .cons ?_
      rw [Function.update_self]
      refine .cons ?_
      rw [Function.update_of_ne ha.1, Function.update_self]
      exact .nil
    | cons d ds =>
      rw [List.getLast?_cons_cons] at hlast
      have hcb : c ≠ b := by
        intro he
        exact hnodup.1 (he ▸ List.mem_of_getLast? hlast)
      refine .cons ?_
      rw [Function.update_of_ne hcb, Function.update_of_ne (Ne.symm ha.1)]
      exact ih hnodup.2 ha.2 hlast

end Chain
