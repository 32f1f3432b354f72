import Mathlib.Data.List.Nodup

/-!
# Lists with keys

Each entry of a list has a key. While no two entries have the same one (`Distinct`), the list is a
map: an entry is found under its key, and what is done to it leaves the entries with other keys.

* `entryOf` — the entry with a key
-/

namespace Keyed

variable {α κ : Type*} {key : α → κ} {xs : List α} {x y : α} {k : κ} {i : Nat}

/-- No key occurs twice. -/
def Distinct (key : α → κ) (xs : List α) : Prop := (xs.map key).Nodup

theorem map_set (hi : xs[i]? = some x) (hkey : key y = key x) :
    (xs.set i y).map key = xs.map key := by
  obtain ⟨hlt, hget⟩ := List.getElem?_eq_some_iff.mp hi
  have hlt' : i < (xs.map key).length := by
    rw [List.length_map]
    exact hlt
  have hsame : key y = (xs.map key)[i] := by
    rw [List.getElem_map, hget, hkey]
  rw [List.map_set, hsame, List.set_getElem_self]

theorem Distinct.set (h : Distinct key xs) (hi : xs[i]? = some x) (hkey : key y = key x) :
    Distinct key (xs.set i y) := by
  unfold Distinct
  rw [map_set hi hkey]
  exact h

theorem Distinct.eraseIdx (h : Distinct key xs) : Distinct key (xs.eraseIdx i) :=
  h.sublist ((List.eraseIdx_sublist xs i).map key)

theorem Distinct.map {f : α → α} (h : Distinct key xs) (hkey : ∀ x, key (f x) = key x) :
    Distinct key (xs.map f) := by
  unfold Distinct
  rw [List.map_map, show key ∘ f = key from funext hkey]
  exact h

variable [DecidableEq κ]

/-- The entry with a key. -/
def entryOf (key : α → κ) (xs : List α) (k : κ) : Option α := xs.find? (fun x => key x = k)

theorem entryOf_eq_none : entryOf key xs k = none ↔ ∀ x ∈ xs, key x ≠ k := by
  simp [entryOf]

theorem entryOf_some (h : entryOf key xs k = some x) : x ∈ xs ∧ key x = k :=
  ⟨List.mem_of_find?_eq_some h, by simpa using List.find?_some h⟩

/-- **An entry is found under its key.** -/
theorem Distinct.entryOf_iff (h : Distinct key xs) :
    entryOf key xs k = some x ↔ x ∈ xs ∧ key x = k := by
  refine ⟨entryOf_some, ?_⟩
  rintro ⟨hm, rfl⟩
  cases hf : entryOf key xs (key x) with
  | none => exact absurd rfl (entryOf_eq_none.mp hf x hm)
  | some y =>
    obtain ⟨hy, hkey⟩ := entryOf_some hf
    rw [List.inj_on_of_nodup_map h hy hm hkey]

/-! ## One entry more, less or changed -/

theorem Distinct.entryOf_set (h : Distinct key xs) (hi : xs[i]? = some x) (hkey : key y = key x) :
    entryOf key (xs.set i y) k = if key x = k then some y else entryOf key xs k := by
  have hlt := (List.getElem?_eq_some_iff.mp hi).1
  split
  · next hk =>
    refine (h.set hi hkey).entryOf_iff.mpr ⟨List.mem_set hlt y, hkey.trans hk⟩
  · next hk =>
    refine Option.ext fun z => ?_
    rw [(h.set hi hkey).entryOf_iff, h.entryOf_iff]
    constructor
    · rintro ⟨hm, rfl⟩
      rcases List.mem_or_eq_of_mem_set hm with hm | rfl
      · exact ⟨hm, rfl⟩
      · exact absurd hkey.symm hk
    · rintro ⟨hm, rfl⟩
      obtain ⟨j, hj⟩ := List.mem_iff_getElem?.mp hm
      refine ⟨List.mem_iff_getElem?.mpr ⟨j, ?_⟩, rfl⟩
      have hne : i ≠ j := by
        rintro rfl
        exact hk (congrArg key (Option.some.inj (hi.symm.trans hj)))
      rw [List.getElem?_set_ne hne, hj]

theorem Distinct.entryOf_eraseIdx (h : Distinct key xs) (hi : xs[i]? = some x) :
    entryOf key (xs.eraseIdx i) k = if key x = k then none else entryOf key xs k := by
  split
  · next hk =>
    refine entryOf_eq_none.mpr fun y hm hy => ?_
    obtain ⟨j, hj, hget⟩ := List.mem_eraseIdx_iff_getElem?.mp hm
    have hsame : (xs.map key)[i]? = (xs.map key)[j]? := by
      rw [List.getElem?_map, List.getElem?_map, hi, hget, Option.map_some, Option.map_some, hk, hy]
    have hlt : i < (xs.map key).length := by
      rw [List.length_map]
      exact (List.getElem?_eq_some_iff.mp hi).1
    exact hj ((List.getElem?_inj hlt h).mp hsame).symm
  · next hk =>
    refine Option.ext fun z => ?_
    rw [h.eraseIdx.entryOf_iff, h.entryOf_iff]
    refine and_congr_left fun hz => ⟨List.mem_of_mem_eraseIdx, fun hm => ?_⟩
    obtain ⟨j, hj⟩ := List.mem_iff_getElem?.mp hm
    refine List.mem_eraseIdx_iff_getElem?.mpr ⟨j, ?_, hj⟩
    rintro rfl
    rw [hi, Option.some.injEq] at hj
    exact hk (hj ▸ hz)

theorem Distinct.append (h : Distinct key xs) (hnew : entryOf key xs (key x) = none) :
    Distinct key (xs ++ [x]) := by
  unfold Distinct
  rw [List.map_append]
  refine List.nodup_append.mpr ⟨h, List.nodup_singleton _, ?_⟩
  intro a ha b hb hab
  obtain ⟨y, hy, rfl⟩ := List.mem_map.mp ha
  rw [List.map_singleton, List.mem_singleton] at hb
  exact entryOf_eq_none.mp hnew y hy (hab.trans hb)

theorem entryOf_append (hnew : entryOf key xs (key x) = none) :
    entryOf key (xs ++ [x]) k = if key x = k then some x else entryOf key xs k := by
  unfold entryOf at hnew ⊢
  rw [List.find?_append]
  split
  · next hk =>
    rw [← hk, hnew]
    simp
  · next hk => simp [hk]

/-- Entries that change under their keys. -/
theorem entryOf_map {f : α → α} (hkey : ∀ x, key (f x) = key x) :
    entryOf key (xs.map f) k = (entryOf key xs k).map f := by
  unfold entryOf
  rw [List.find?_map]
  congr 2
  funext x
  exact congrArg (fun k' => decide (k' = k)) (hkey x)

end Keyed
