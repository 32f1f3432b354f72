import Mathlib.Tactic.Common
import Mathlib.Data.List.TakeWhile

/-!
# Scanning a source

A source is what has not been read of a text, and whether somebody has looked behind its end. The
characters in front are taken while they have a property, and only so many of them. What is taken
off a text that was put together from words is the next word (`takeChars_word`).
-/

namespace Scan

variable {α : Type*}

/-- What has not been read, and whether the end has been met. -/
structure Source (α : Type*) where
  rest : List α
  ended : Bool

/-- The characters in front that have a property, up to a number of them. The end is met if one more
is looked for there. -/
def takeChars (p : α → Bool) (limit : Nat) (s : Source α) : List α × Source α :=
  let taken := (s.rest.takeWhile p).take limit
  let rest := s.rest.drop taken.length
  (taken, { rest := rest, ended := s.ended || (taken.length < limit && rest.isEmpty) })

/-- All the characters in front that have a property. -/
def takeAll (p : α → Bool) (s : Source α) : List α × Source α :=
  takeChars p (s.rest.length + 1) s

variable {p : α → Bool} {limit : Nat} {s s' : Source α} {w rest : List α} {ended : Bool}

/-- Nothing with the property begins here. -/
def Stops (p : α → Bool) (rest : List α) : Prop := ∀ c ∈ rest.head?, p c = false

theorem stops_nil : Stops p [] := fun _ hc => by cases hc

theorem stops_cons {c : α} (h : p c = false) : Stops p (c :: rest) := by
  intro d hd
  cases hd
  exact h

theorem takeWhile_stops (h : Stops p rest) : rest.takeWhile p = [] := by
  cases rest with
  | nil => rfl
  | cons c rest =>
    rw [List.takeWhile_cons, h c rfl]
    rfl

/-- **The next word is taken**, if it is not too long and ends where it should. -/
theorem takeChars_word (hw : ∀ c ∈ w, p c = true) (hlen : w.length ≤ limit)
    (hstop : Stops p rest ∨ w.length = limit) :
    takeChars p limit ⟨w ++ rest, ended⟩
      = (w, ⟨rest, ended || (w.length < limit && rest.isEmpty)⟩) := by
  have htaken : ((w ++ rest).takeWhile p).take limit = w := by
    rw [List.takeWhile_append_of_pos hw]
    rcases hstop with hstop | hfull
    · rw [takeWhile_stops hstop, List.append_nil, List.take_of_length_le hlen]
    · rw [← hfull, List.take_left]
  unfold takeChars
  dsimp only
  rw [htaken, List.drop_left]

/-- Nothing is taken behind a character without the property. -/
theorem takeChars_before {c : α} (hc : p c = false) :
    takeChars p limit ⟨w ++ c :: rest, ended⟩
      = ((w.takeWhile p).take limit,
        ⟨w.drop ((w.takeWhile p).take limit).length ++ c :: rest, ended⟩) := by
  have hwhile : (w ++ c :: rest).takeWhile p = w.takeWhile p := by
    rw [List.takeWhile_append]
    split
    · next hall =>
      rw [takeWhile_stops (stops_cons hc), List.append_nil]
      exact (List.takeWhile_prefix p).eq_of_length hall |>.symm
    · rfl
  have hle : ((w.takeWhile p).take limit).length ≤ w.length :=
    ((List.take_prefix _ _).trans (List.takeWhile_prefix p)).length_le
  unfold takeChars
  dsimp only
  rw [hwhile, List.drop_append_of_le_length hle]
  simp

/-- All the characters in front that have the property are taken, and the end is met if no other
character follows. -/
theorem takeAll_eq : takeAll p s
    = (s.rest.takeWhile p, ⟨s.rest.dropWhile p, s.ended || (s.rest.dropWhile p).isEmpty⟩) := by
  have hle : (s.rest.takeWhile p).length ≤ s.rest.length := (List.takeWhile_prefix p).length_le
  have hall : (s.rest.takeWhile p).take (s.rest.length + 1) = s.rest.takeWhile p :=
    List.take_of_length_le (Nat.le_succ_of_le hle)
  have hdrop : s.rest.drop (s.rest.takeWhile p).length = s.rest.dropWhile p := by
    have := @List.drop_left _ (s.rest.takeWhile p) (s.rest.dropWhile p)
    rwa [List.takeWhile_append_dropWhile] at this
  unfold takeAll takeChars
  dsimp only
  rw [hall, hdrop, decide_eq_true (Nat.lt_succ_of_le hle), Bool.true_and]

theorem takeAll_word (hw : ∀ c ∈ w, p c = true) (hstop : Stops p rest) :
    takeAll p ⟨w ++ rest, ended⟩ = (w, ⟨rest, ended || rest.isEmpty⟩) := by
  have hrest : rest.dropWhile p = rest := by
    have := @List.takeWhile_append_dropWhile _ p rest
    rwa [takeWhile_stops hstop, List.nil_append] at this
  rw [takeAll_eq]
  dsimp only
  rw [List.takeWhile_append_of_pos hw, List.dropWhile_append_of_pos hw, takeWhile_stops hstop,
    hrest, List.append_nil]

/-- Where all has been taken, nothing with the property begins. -/
theorem takeAll_stops : Stops p (takeAll p s).2.rest := by
  have hhead := List.head?_dropWhile_not p s.rest
  rw [takeAll_eq]
  intro c hc
  rw [Option.mem_def.mp hc] at hhead
  exact hhead

/-- A character with the property may be there or not. -/
theorem takeAll_cons {c : α} (hc : p c = true) :
    (takeAll p ⟨c :: rest, ended⟩).2 = (takeAll p ⟨rest, ended⟩).2 := by
  rw [takeAll_eq, takeAll_eq]
  dsimp only
  rw [List.dropWhile_cons_of_pos hc]

/-- Nothing is left to take a second time. -/
theorem takeAll_takeAll : (takeAll p (takeAll p s).2).2 = (takeAll p s).2 := by
  have hagain := @takeAll_word _ p [] (takeAll p s).2.rest (takeAll p s).2.ended
    (fun _ hc => by cases hc) takeAll_stops
  rw [List.nil_append] at hagain
  rw [hagain, takeAll_eq]
  dsimp only
  rw [Bool.or_assoc, Bool.or_self]

/-! ## What has been taken -/

theorem takeChars_rest : (takeChars p limit s).1 ++ (takeChars p limit s).2.rest = s.rest := by
  have hbegins : (takeChars p limit s).1 <+: s.rest :=
    (List.take_prefix _ _).trans (List.takeWhile_prefix p)
  exact (List.prefix_iff_eq_append.mp hbegins)

theorem length_rest_takeChars : (takeChars p limit s).2.rest.length ≤ s.rest.length := by
  have hrest := congrArg List.length (@takeChars_rest _ p limit s)
  rw [List.length_append] at hrest
  omega

theorem length_takeChars : (takeChars p limit s).1.length ≤ limit := by
  refine Nat.le_trans (Nat.le_of_eq List.length_take) ?_
  exact Nat.min_le_left _ _

theorem of_mem_takeChars {c : α} (h : c ∈ (takeChars p limit s).1) : p c = true :=
  List.mem_takeWhile_imp (List.mem_of_mem_take h)

end Scan
