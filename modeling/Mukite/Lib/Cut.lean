import Mathlib.Tactic.Common

/-!
# Cutting at the first separator

A list is cut where a separator occurs for the first time: `front` is what stands before it, `back`
what stands behind it, if it occurs at all.
-/

namespace Cut

variable {α : Type*} [DecidableEq α] {sep c : α} {s rest : List α}

/-- What stands before the first separator. -/
def front (sep : α) (s : List α) : List α := s.takeWhile (· != sep)

/-- What stands behind it. -/
def back (sep : α) (s : List α) : Option (List α) :=
  if sep ∈ s then some (s.dropWhile (· != sep)).tail else none

@[simp] theorem front_nil : front sep [] = [] := rfl

@[simp] theorem back_nil : back sep ([] : List α) = none := rfl

@[simp] theorem front_cons_self : front sep (sep :: rest) = [] := by
  simp [front]

@[simp] theorem back_cons_self : back sep (sep :: rest) = some rest := by
  simp [back]

theorem front_cons_ne (h : c ≠ sep) : front sep (c :: rest) = c :: front sep rest := by
  simp [front, h]

theorem back_cons_ne (h : c ≠ sep) : back sep (c :: rest) = back sep rest := by
  simp [back, h, Ne.symm h]

theorem back_eq_none_iff : back sep s = none ↔ sep ∉ s := by
  unfold back
  split
  · next h => simp [h]
  · next h => simp [h]

end Cut
