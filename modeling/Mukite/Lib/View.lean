import Mathlib.Tactic.Common
import Mathlib.Logic.Function.Basic

/-!
# Views that are built from events

An observer that is told single facts builds a view of a map: an event says that a key has a
value, or that it has none. What it was told may be incomplete or repeat itself. The view is
right after a batch of events once every event is true of the map by then, and every key that
has changed has an event (`after_eq`).
-/

namespace View

variable {κ ν : Type*} [DecidableEq κ]

/-- A partial map. -/
abbrev Table (κ ν : Type*) := κ → Option ν

/-- A key and its value, `none` when it is removed. -/
abbrev Event (κ ν : Type*) := κ × Option ν

/-- The view after one event. -/
def apply (m : Table κ ν) (e : Event κ ν) : Table κ ν := Function.update m e.1 e.2

/-- The view after the events of a list, in order. -/
def after (m : Table κ ν) (es : List (Event κ ν)) : Table κ ν := es.foldl apply m

/-- The view of an observer that knows nothing. -/
def unknown : Table κ ν := fun _ => none

variable {m m' : Table κ ν} {es : List (Event κ ν)} {e : Event κ ν}

@[simp] theorem after_nil : after m [] = m := rfl

@[simp] theorem after_cons : after m (e :: es) = after (apply m e) es := rfl

theorem after_append (m : Table κ ν) (es es' : List (Event κ ν)) :
    after m (es ++ es') = after (after m es) es' := List.foldl_append

@[simp] theorem apply_self : apply m e e.1 = e.2 := Function.update_self _ _ _

theorem apply_of_ne {k : κ} (h : k ≠ e.1) : apply m e k = m k := Function.update_of_ne h _ _

/-- **True events about every key that has changed make the view right.** -/
theorem after_eq (htrue : ∀ e ∈ es, m' e.1 = e.2)
    (hcover : ∀ k, m k ≠ m' k → ∃ e ∈ es, e.1 = k) : after m es = m' := by
  induction es generalizing m with
  | nil =>
    funext k
    by_contra hne
    obtain ⟨e, he, -⟩ := hcover k hne
    exact absurd he List.not_mem_nil
  | cons e es ih =>
    refine ih (fun e' he' => htrue e' (List.mem_cons_of_mem _ he')) fun k hne => ?_
    -- the first event is true, so a key that is still wrong is another one
    have hk : k ≠ e.1 := by
      rintro rfl
      rw [apply_self] at hne
      exact hne (htrue e List.mem_cons_self).symm
    rw [apply_of_ne hk] at hne
    obtain ⟨e', he', hkey⟩ := hcover k hne
    rcases List.mem_cons.mp he' with rfl | he'
    · exact absurd hkey.symm hk
    · exact ⟨e', he', hkey⟩

end View
