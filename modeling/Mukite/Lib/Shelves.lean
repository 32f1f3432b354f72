import Mathlib.Data.List.Nodup
import Mathlib.Data.List.InsertIdx
import Mathlib.Data.List.Perm.Basic
import Mathlib.Logic.Function.Basic

/-!
# A map kept as several lists

Entries lie on shelves, and each has a key. While no key occurs twice over all the shelves
(`Unique`), the shelves are a map: a key has at most one entry and at most one shelf. An entry is
moved by taking it off its shelf and putting it at the end of another one.

* `Unique.mem_takeOff`: what is left when an entry is taken off is what has another key.
* `Unique.putOn`: a fresh key may be put on any shelf.

A key that does occur more than once is counted (`keyCount_takeOff`, `keyCount_putOn`).
-/

namespace Shelves

variable {ι α κ : Type*} {key : α → κ} {shelves : ι → List α} {a b : ι} {x y : α}
  {i : Nat}

/-- No key occurs twice over all the shelves. -/
structure Unique (key : α → κ) (shelves : ι → List α) : Prop where
  within : ∀ a, ((shelves a).map key).Nodup
  across : ∀ a b x y, x ∈ shelves a → y ∈ shelves b → key x = key y → a = b

/-- The shelves without the entry at a position. -/
def takeOff [DecidableEq ι] (shelves : ι → List α) (a : ι) (i : Nat) : ι → List α :=
  Function.update shelves a ((shelves a).eraseIdx i)

/-- The shelves with one more entry. -/
def putOn [DecidableEq ι] (shelves : ι → List α) (a : ι) (x : α) : ι → List α :=
  Function.update shelves a (shelves a ++ [x])

theorem unique_empty : Unique key (fun _ : ι => ([] : List α)) where
  within := fun _ => List.nodup_nil
  across := fun _ _ _ _ hx => absurd hx List.not_mem_nil

/-- **A key has one place.** -/
theorem Unique.place {j : Nat} (h : Unique key shelves) (hx : (shelves a)[i]? = some x)
    (hy : (shelves b)[j]? = some y) (hkey : key x = key y) : a = b ∧ i = j := by
  obtain rfl := h.across a b x y (List.mem_of_getElem? hx) (List.mem_of_getElem? hy) hkey
  refine ⟨rfl, ?_⟩
  have hi : ((shelves a).map key)[i]? = some (key x) := by simp [hx]
  have hj : ((shelves a).map key)[j]? = some (key x) := by simp [hy, hkey]
  have hlt : i < ((shelves a).map key).length := (List.getElem?_eq_some_iff.mp hi).1
  exact (List.getElem?_inj hlt (h.within a)).mp (hi.trans hj.symm)

theorem Unique.entry (h : Unique key shelves) (hx : x ∈ shelves a) (hy : y ∈ shelves b)
    (hkey : key x = key y) : a = b ∧ x = y := by
  obtain ⟨i, hi⟩ := List.mem_iff_getElem?.mp hx
  obtain ⟨j, hj⟩ := List.mem_iff_getElem?.mp hy
  obtain ⟨rfl, rfl⟩ := h.place hi hj hkey
  exact ⟨rfl, Option.some.inj (hi.symm.trans hj)⟩

variable [DecidableEq ι]

/-! ## Taking off -/

/-- **Taking off the entry of a key leaves the entries of the other keys.** -/
theorem Unique.mem_takeOff (h : Unique key shelves) (hx : (shelves a)[i]? = some x) :
    y ∈ takeOff shelves a i b ↔ y ∈ shelves b ∧ key y ≠ key x := by
  unfold takeOff
  by_cases hb : b = a
  · subst hb
    rw [Function.update_self, List.mem_eraseIdx_iff_getElem?]
    constructor
    · rintro ⟨j, hj, hy⟩
      exact ⟨List.mem_of_getElem? hy, fun hkey => hj (h.place hy hx hkey).2⟩
    · rintro ⟨hy, hkey⟩
      obtain ⟨j, hj⟩ := List.mem_iff_getElem?.mp hy
      refine ⟨j, ?_, hj⟩
      rintro rfl
      exact hkey (congrArg key (Option.some.inj (hj.symm.trans hx)))
  · rw [Function.update_of_ne hb]
    refine ⟨fun hy => ⟨hy, fun hkey => hb ?_⟩, And.left⟩
    exact h.across b a y x hy (List.mem_of_getElem? hx) hkey

theorem mem_of_mem_takeOff (hy : y ∈ takeOff shelves a i b) : y ∈ shelves b := by
  unfold takeOff at hy
  by_cases hb : b = a
  · subst hb
    rw [Function.update_self] at hy
    exact List.mem_of_mem_eraseIdx hy
  · rwa [Function.update_of_ne hb] at hy

theorem Unique.takeOff (h : Unique key shelves) : Unique key (takeOff shelves a i) where
  within := by
    intro b
    unfold Shelves.takeOff
    by_cases hb : b = a
    · subst hb
      rw [Function.update_self, ← List.eraseIdx_map]
      exact (h.within b).sublist (List.eraseIdx_sublist ..)
    · rw [Function.update_of_ne hb]
      exact h.within b
  across := fun b c x y hx hy =>
    h.across b c x y (mem_of_mem_takeOff hx) (mem_of_mem_takeOff hy)

/-! ## Putting on -/

theorem mem_putOn : y ∈ putOn shelves a x b ↔ y ∈ shelves b ∨ (b = a ∧ y = x) := by
  unfold putOn
  by_cases hb : b = a
  · subst hb
    simp
  · simp [hb]

/-- **A fresh key may be put on any shelf.** -/
theorem Unique.putOn (h : Unique key shelves) (hfresh : ∀ b, ∀ y ∈ shelves b, key y ≠ key x) :
    Unique key (putOn shelves a x) where
  within := by
    intro b
    unfold Shelves.putOn
    by_cases hb : b = a
    · subst hb
      rw [Function.update_self, List.map_append, List.nodup_append]
      refine ⟨h.within b, List.nodup_singleton _, ?_⟩
      intro k hk k' hk'
      obtain ⟨y, hy, rfl⟩ := List.mem_map.mp hk
      obtain rfl := List.mem_singleton.mp hk'
      exact hfresh b y hy
    · rw [Function.update_of_ne hb]
      exact h.within b
  across := by
    intro b c y z hy hz hkey
    rcases mem_putOn.mp hy with hy | ⟨hb, hyx⟩ <;> rcases mem_putOn.mp hz with hz | ⟨hc, hzx⟩
    · exact h.across b c y z hy hz hkey
    · exact absurd (hzx ▸ hkey) (hfresh b y hy)
    · exact absurd (hyx ▸ hkey.symm) (hfresh c z hz)
    · exact hb.trans hc.symm

/-! ## Counting -/

variable [DecidableEq κ] {k : κ}

/-- How many entries of a list have a key. -/
def keyTimes (key : α → κ) (xs : List α) (k : κ) : Nat := (xs.map key).count k

/-- How many entries of a shelf have a key. -/
def keyCount (key : α → κ) (shelves : ι → List α) (a : ι) (k : κ) : Nat :=
  keyTimes key (shelves a) k

theorem keyTimes_cons {xs : List α} :
    keyTimes key (x :: xs) k = keyTimes key xs k + if k = key x then 1 else 0 := by
  unfold keyTimes
  rw [List.map_cons, List.count_cons]
  by_cases hk : k = key x
  · simp [hk]
  · simp [hk, Ne.symm hk]

theorem keyTimes_pos {xs : List α} : 0 < keyTimes key xs k ↔ ∃ x ∈ xs, key x = k := by
  unfold keyTimes
  rw [List.count_pos_iff, List.mem_map]

/-- Lists with the same keys have the same counts. -/
theorem keyTimes_congr {β : Type*} {key' : β → κ} {xs : List α} {ys : List β}
    (h : xs.map key = ys.map key') : keyTimes key xs k = keyTimes key' ys k := by
  unfold keyTimes
  rw [h]

omit [DecidableEq ι] in
theorem keyCount_pos : 0 < keyCount key shelves a k ↔ ∃ x ∈ shelves a, key x = k := keyTimes_pos

/-- **Taking off an entry lowers the count of its key on its shelf, and no other.** -/
theorem keyCount_takeOff (hx : (shelves a)[i]? = some x) :
    keyCount key (takeOff shelves a i) b k + (if b = a ∧ k = key x then 1 else 0)
      = keyCount key shelves b k := by
  unfold keyCount keyTimes takeOff
  by_cases hb : b = a
  · subst hb
    obtain ⟨hlt, hget⟩ := List.getElem?_eq_some_iff.mp hx
    have hperm := (List.getElem_cons_eraseIdx_perm hlt).map key
    rw [Function.update_self, ← hperm.count_eq, List.map_cons, hget, List.count_cons]
    by_cases hk : k = key x
    · simp [hk]
    · simp [hk, Ne.symm hk]
  · rw [Function.update_of_ne hb, if_neg fun h => hb h.1, Nat.add_zero]

/-- **Putting on an entry raises the count of its key on its shelf, and no other.** -/
theorem keyCount_putOn :
    keyCount key (putOn shelves a x) b k
      = keyCount key shelves b k + if b = a ∧ k = key x then 1 else 0 := by
  unfold keyCount keyTimes putOn
  by_cases hb : b = a
  · subst hb
    rw [Function.update_self, List.map_append, List.count_append, List.map_singleton,
      List.count_singleton]
    by_cases hk : k = key x
    · simp [hk]
    · simp [hk, Ne.symm hk]
  · rw [Function.update_of_ne hb, if_neg fun h => hb h.1, Nat.add_zero]

end Shelves
