import Mathlib.Tactic.Common

/-!
# Data that goes round the end of a buffer

A ring buffer is a list of cells in which the stored data may start anywhere and go on at the
beginning when it reaches the end. `segment` is the data from a position on, `overwrite` puts
new cells at a position.

* `segment_overwrite`: what is written right behind the data is appended to it.
* `segment_split`: a piece taken off the front leaves the rest of the data.
-/

namespace Circle

variable {α : Type*} {xs ys : List α} {start len pos k i : Nat}

/-- The `len` cells from `start` on, going round the end. -/
def segment (xs : List α) (start len : Nat) : List α := (xs.drop start ++ xs.take start).take len

/-- The cells with `ys` put at position `pos`. -/
def overwrite (xs : List α) (pos : Nat) (ys : List α) : List α :=
  xs.take pos ++ ys ++ xs.drop (pos + ys.length)

/-- A position at the end is the one at the beginning. -/
def wrap (cap pos : Nat) : Nat := if pos = cap then 0 else pos

theorem wrap_lt {cap : Nat} (h : pos ≤ cap) (hcap : 0 < cap) : wrap cap pos < cap := by
  unfold wrap
  split <;> omega

theorem wrap_eq_mod {cap : Nat} (h : pos ≤ cap) : wrap cap pos = pos % cap := by
  unfold wrap
  split
  · next he => rw [he, Nat.mod_self]
  · rw [Nat.mod_eq_of_lt (by omega)]

/-! ## Segments -/

@[simp] theorem segment_zero : segment xs start 0 = [] := List.take_zero

theorem length_segment (hstart : start ≤ xs.length) (hlen : len ≤ xs.length) :
    (segment xs start len).length = len := by
  unfold segment
  rw [List.length_take, List.length_append, List.length_drop, List.length_take]
  omega

/-- The cell at distance `i` from the start. -/
theorem getElem?_segment (hstart : start ≤ xs.length) :
    (segment xs start len)[i]? =
      if i < len then
        if start + i < xs.length then xs[start + i]?
        else if i < xs.length then xs[start + i - xs.length]? else none
      else none := by
  unfold segment
  rw [List.getElem?_take]
  by_cases hi : i < len
  · rw [if_pos hi, if_pos hi]
    by_cases hs : start + i < xs.length
    · rw [if_pos hs, List.getElem?_append_left (by rw [List.length_drop]; omega),
        List.getElem?_drop]
    · rw [if_neg hs, List.getElem?_append_right (by rw [List.length_drop]; omega),
        List.length_drop, List.getElem?_take]
      have hpos : i - (xs.length - start) = start + i - xs.length := by omega
      rw [hpos]
      by_cases hn : i < xs.length
      · rw [if_pos hn, if_pos (by omega)]
      · rw [if_neg hn, if_neg (by omega)]
  · rw [if_neg hi, if_neg hi]

/-- Data that does not reach the end lies in one piece. -/
theorem segment_contiguous (h : start + len ≤ xs.length) :
    segment xs start len = (xs.drop start).take len := by
  unfold segment
  rw [List.take_append_of_le_length (by rw [List.length_drop]; omega)]

/-- Data that reaches the end goes on at the beginning. -/
theorem segment_wrapped (hstart : start ≤ xs.length) (hlen : len ≤ xs.length)
    (h : xs.length ≤ start + len) :
    segment xs start len = xs.drop start ++ xs.take (start + len - xs.length) := by
  have hcut : len - (xs.length - start) = start + len - xs.length := by omega
  unfold segment
  rw [List.take_append, List.length_drop, List.take_of_length_le (by rw [List.length_drop]; omega),
    List.take_take, hcut, Nat.min_eq_left (by omega)]

/-- Data at the end of the buffer starts at the beginning. -/
theorem segment_length_start : segment xs xs.length len = segment xs 0 len := by
  unfold segment
  simp

theorem segment_wrap : segment xs (wrap xs.length start) len = segment xs start len := by
  unfold wrap
  split
  · next h => rw [h, segment_length_start]
  · rfl

/-- **A piece off the front leaves the rest, from the next position on.** -/
theorem segment_split (hstart : start ≤ xs.length) (hlen : len ≤ xs.length) (hk : k ≤ len) :
    segment xs start len = segment xs start k ++
      segment xs (if start + k ≤ xs.length then start + k else start + k - xs.length)
        (len - k) := by
  have hnext : (if start + k ≤ xs.length then start + k else start + k - xs.length)
      ≤ xs.length := by
    split <;> omega
  apply List.ext_getElem?
  intro i
  rw [getElem?_segment hstart]
  by_cases hi : i < k
  · rw [List.getElem?_append_left (by rw [length_segment hstart (by omega)]; exact hi),
      getElem?_segment hstart, if_pos hi, if_pos (by omega)]
  · rw [List.getElem?_append_right (by rw [length_segment hstart (by omega)]; omega),
      length_segment hstart (by omega), getElem?_segment hnext]
    by_cases hl : i < len
    · rw [if_pos hl, if_pos (show i - k < len - k by omega)]
      by_cases hs : start + k ≤ xs.length
      · have hi : start + k + (i - k) = start + i := by omega
        rw [if_pos hs, hi, if_pos (show i < xs.length by omega),
          if_pos (show i - k < xs.length by omega)]
      · have hi : start + k - xs.length + (i - k) = start + i - xs.length := by omega
        rw [if_neg hs, hi, if_neg (show ¬ start + i < xs.length by omega),
          if_pos (show i < xs.length by omega),
          if_pos (show start + i - xs.length < xs.length by omega)]
    · rw [if_neg hl, if_neg (show ¬ i - k < len - k by omega)]

/-! ## Writing -/

theorem length_overwrite (h : pos + ys.length ≤ xs.length) :
    (overwrite xs pos ys).length = xs.length := by
  unfold overwrite
  rw [List.length_append, List.length_append, List.length_take, List.length_drop]
  omega

theorem getElem?_overwrite (h : pos + ys.length ≤ xs.length) :
    (overwrite xs pos ys)[i]? =
      if pos ≤ i ∧ i < pos + ys.length then ys[i - pos]? else xs[i]? := by
  have htake : (xs.take pos).length = pos := by
    rw [List.length_take]
    omega
  unfold overwrite
  by_cases hlt : i < pos
  · rw [if_neg (by omega), List.append_assoc,
      List.getElem?_append_left (by omega), List.getElem?_take, if_pos hlt]
  · by_cases hin : i < pos + ys.length
    · rw [if_pos ⟨by omega, hin⟩,
        List.getElem?_append_left (by rw [List.length_append]; omega),
        List.getElem?_append_right (by omega), htake]
    · rw [if_neg (by omega), List.getElem?_append_right (by rw [List.length_append]; omega),
        List.length_append, htake, List.getElem?_drop]
      have hpos : pos + ys.length + (i - (pos + ys.length)) = i := by omega
      rw [hpos]

/-- **What is put right behind the data, without going round the end, is appended to it.** -/
theorem segment_overwrite (hstart : start ≤ xs.length)
    (hpos : pos = start + len ∨ pos + xs.length = start + len)
    (hroom : len + ys.length ≤ xs.length) (hfit : pos + ys.length ≤ xs.length) :
    segment (overwrite xs pos ys) start (len + ys.length) = segment xs start len ++ ys := by
  have hlen : (overwrite xs pos ys).length = xs.length := length_overwrite hfit
  apply List.ext_getElem?
  intro i
  rw [getElem?_segment (by omega), hlen]
  by_cases hi : i < len
  · -- the data that was there lies outside of what is written
    rw [List.getElem?_append_left (by rw [length_segment hstart (by omega)]; exact hi),
      getElem?_segment hstart, if_pos hi, if_pos (by omega), getElem?_overwrite hfit,
      getElem?_overwrite hfit]
    by_cases hs : start + i < xs.length
    · rw [if_pos hs, if_pos hs, if_neg (by omega)]
    · have hn : i < xs.length := by omega
      rw [if_neg hs, if_neg hs, if_pos hn, if_pos hn, if_neg (by omega)]
  · rw [List.getElem?_append_right (by rw [length_segment hstart (by omega)]; omega),
      length_segment hstart (by omega)]
    by_cases hy : i - len < ys.length
    · rw [if_pos (by omega), getElem?_overwrite hfit, getElem?_overwrite hfit]
      by_cases hs : start + i < xs.length
      · have h1 : start + i - pos = i - len := by omega
        rw [if_pos hs, if_pos (by omega), h1]
      · have h1 : start + i - xs.length - pos = i - len := by omega
        rw [if_neg hs, if_pos (by omega), if_pos (by omega), h1]
    · rw [if_neg (by omega), List.getElem?_eq_none (by omega)]

end Circle
