import Mukite.Lib.Circle

/-!
# Text pushed into a block of fixed size

A text is pushed piece by piece behind a cursor that may not pass the end of its block. A piece
says how the room for it is checked: before it is copied, as `snprintf` does, which counts without
the terminator and cuts what does not fit, or as `strftime` does, which wants room for the
terminator. The first piece that does not fit ends the run.

* `frame`: nothing changes outside of the room behind the cursor.
* `run_iff`, `run_text`: if something follows every printed piece (`Sealed`), a run succeeds exactly
  when the whole text fits, and it leaves the whole text.
-/

namespace Output

variable {α : Type*}

/-- A piece of text, with the way in which the room for it is checked. -/
inductive Piece (α : Type*)
  /-- checked, then copied -/
  | copied (text : List α)
  /-- cut to the room without a terminator, then checked without it -/
  | printed (text : List α)
  /-- refused if it is empty or if the room does not hold it with a terminator -/
  | stamped (text : List α)

def Piece.text : Piece α → List α
  | copied text => text
  | printed text => text
  | stamped text => text

/-- The text of several pieces. -/
def texts (pieces : List (Piece α)) : List α := (pieces.map Piece.text).flatten

@[simp] theorem texts_nil : texts ([] : List (Piece α)) = [] := rfl

@[simp] theorem texts_cons (piece : Piece α) (pieces : List (Piece α)) :
    texts (piece :: pieces) = piece.text ++ texts pieces := rfl

@[simp] theorem texts_append (pieces more : List (Piece α)) :
    texts (pieces ++ more) = texts pieces ++ texts more := by
  simp [texts]

/-- Memory with a block in it: from `pos`, the cursor, to `stop` it is free. -/
structure Block (α : Type*) where
  mem : List α
  pos : Nat
  stop : Nat

namespace Block

def room (block : Block α) : Nat := block.stop - block.pos

/-- The cursor is in the block and the block in the memory. -/
structure Valid (block : Block α) : Prop where
  le : block.pos ≤ block.stop
  fits : block.stop ≤ block.mem.length

/-- Put something at the cursor, which stays. -/
def put (block : Block α) (text : List α) : Block α :=
  { block with mem := Circle.overwrite block.mem block.pos text }

def advance (block : Block α) (n : Nat) : Block α := { block with pos := block.pos + n }

end Block

section Run

-- `terminator` ends what is printed; `scraps` is what a refused stamp leaves in the room
variable (terminator : α) (scraps : List α → Nat → List α)

/-- Push one piece; `false` if it does not fit. -/
def push (piece : Piece α) (block : Block α) : Block α × Bool :=
  match piece with
  | .copied text =>
    if block.pos + text.length > block.stop then (block, false)
    else ((block.put text).advance text.length, true)
  | .printed text =>
    let printed :=
      if block.room = 0 then block
      else block.put (text.take (block.room - 1) ++ [terminator])
    if block.pos + text.length > block.stop then (printed, false)
    else (printed.advance text.length, true)
  | .stamped text =>
    if text.length = 0 ∨ text.length + 1 > block.room then
      (block.put ((scraps text block.room).take block.room), false)
    else ((block.put (text ++ [terminator])).advance text.length, true)

/-- Push pieces up to the first one that does not fit. -/
def run : List (Piece α) → Block α → Block α × Bool
  | [], block => (block, true)
  | piece :: rest, block =>
    if (push terminator scraps piece block).2 then
      run rest (push terminator scraps piece block).1
    else ((push terminator scraps piece block).1, false)

end Run

/-- If `more` more elements follow, something follows every piece that is printed or stamped. -/
inductive Sealed (more : Nat) : List (Piece α) → Prop
  | nil : Sealed more []
  | copied {text : List α} {rest : List (Piece α)} :
    Sealed more rest → Sealed more (.copied text :: rest)
  | printed {text : List α} {rest : List (Piece α)} :
    0 < (texts rest).length + more → Sealed more rest → Sealed more (.printed text :: rest)
  | stamped {text : List α} {rest : List (Piece α)} :
    text ≠ [] → 0 < (texts rest).length + more → Sealed more rest →
    Sealed more (.stamped text :: rest)

/-! ## What is sealed -/

section Sealed

variable {more k : Nat} {pieces pieces' : List (Piece α)}

@[simp] theorem sealed_nil : Sealed more ([] : List (Piece α)) := .nil

@[simp] theorem sealed_copied {text : List α} :
    Sealed more (.copied text :: pieces) ↔ Sealed more pieces := by
  constructor
  · rintro ⟨⟩
    assumption
  · exact .copied

@[simp] theorem sealed_printed {text : List α} : Sealed more (.printed text :: pieces) ↔
    0 < (texts pieces).length + more ∧ Sealed more pieces := by
  constructor
  · rintro ⟨⟩
    exact ⟨‹_›, ‹_›⟩
  · rintro ⟨hpos, h⟩
    exact .printed hpos h

@[simp] theorem sealed_stamped {text : List α} : Sealed more (.stamped text :: pieces) ↔
    text ≠ [] ∧ 0 < (texts pieces).length + more ∧ Sealed more pieces := by
  constructor
  · rintro ⟨⟩
    exact ⟨‹_›, ‹_›, ‹_›⟩
  · rintro ⟨hne, hpos, h⟩
    exact .stamped hne hpos h

theorem Sealed.mono (h : Sealed k pieces) (hle : k ≤ more) : Sealed more pieces := by
  have hadd : ∀ n, 0 < n + k → 0 < n + more := fun n hn =>
    Nat.lt_of_lt_of_le hn (Nat.add_le_add_left hle n)
  induction h with
  | nil => exact .nil
  | copied _ ih => exact .copied ih
  | printed hpos _ ih => exact .printed (hadd _ hpos) ih
  | stamped hne hpos _ ih => exact .stamped hne (hadd _ hpos) ih

theorem sealed_append : Sealed more (pieces ++ pieces') ↔
    Sealed ((texts pieces').length + more) pieces ∧ Sealed more pieces' := by
  induction pieces with
  | nil => simp
  | cons piece rest ih => cases piece <;> simp [ih, Nat.add_assoc, and_assoc]

/-- What needs nothing behind it may stand in front of anything. -/
theorem Sealed.append (h : Sealed 0 pieces) (h' : Sealed more pieces') :
    Sealed more (pieces ++ pieces') :=
  sealed_append.mpr ⟨h.mono (Nat.zero_le _), h'⟩

theorem sealed_flatten {parts : List (List (Piece α))} (h : ∀ part ∈ parts, Sealed 0 part) :
    Sealed more parts.flatten := by
  induction parts with
  | nil => exact .nil
  | cons part rest ih =>
    exact (h part List.mem_cons_self).append (ih fun p hp => h p (List.mem_cons_of_mem _ hp))

end Sealed

/-! ## The frame -/

/-- A block later: the same memory but for the room behind the old cursor. -/
structure Later (block block' : Block α) : Prop where
  stop : block'.stop = block.stop
  pos : block.pos ≤ block'.pos
  valid : block'.Valid
  length : block'.mem.length = block.mem.length
  outside : ∀ i, ¬ (block.pos ≤ i ∧ i < block.stop) → block'.mem[i]? = block.mem[i]?

namespace Later

variable {a b c : Block α}

theorem refl (h : a.Valid) : Later a a := ⟨rfl, Nat.le_refl _, h, rfl, fun _ _ => rfl⟩

theorem trans (h : Later a b) (h' : Later b c) : Later a c where
  stop := h'.stop.trans h.stop
  pos := Nat.le_trans h.pos h'.pos
  valid := h'.valid
  length := h'.length.trans h.length
  outside i hi := by
    have hpos := h.pos
    rw [h'.outside i (by rw [h.stop]; omega), h.outside i hi]

/-- Something put into the room, and the cursor moved on in it. -/
theorem put (h : a.Valid) {text : List α} {n : Nat} (hfit : text.length ≤ a.room)
    (hn : n ≤ a.room) : Later a ((a.put text).advance n) := by
  obtain ⟨hle, hmem⟩ := h
  unfold Block.room at hfit hn
  have hin : a.pos + text.length ≤ a.mem.length := by omega
  refine ⟨rfl, Nat.le_add_right _ _, ⟨?_, ?_⟩, Circle.length_overwrite hin, ?_⟩
  · show a.pos + n ≤ a.stop
    omega
  · show a.stop ≤ (Circle.overwrite a.mem a.pos text).length
    rw [Circle.length_overwrite hin]
    exact hmem
  · intro i hi
    show (Circle.overwrite a.mem a.pos text)[i]? = a.mem[i]?
    rw [Circle.getElem?_overwrite hin, if_neg (by omega)]

end Later

variable {terminator : α} {scraps : List α → Nat → List α} {piece : Piece α}
  {pieces : List (Piece α)} {block : Block α}

theorem push_later (h : block.Valid) : Later block (push terminator scraps piece block).1 := by
  have hroom : block.room = block.stop - block.pos := rfl
  have hle := h.le
  cases piece with
  | copied text =>
    unfold push
    dsimp only
    split
    · exact Later.refl h
    · exact Later.put h (by omega) (by omega)
  | printed text =>
    have hcut : block.room ≠ 0 →
        (text.take (block.room - 1) ++ [terminator]).length ≤ block.room := by
      intro hne
      rw [List.length_append, List.length_take, List.length_singleton]
      omega
    unfold push
    dsimp only
    by_cases hzero : block.room = 0
    · rw [if_pos hzero]
      split
      · exact Later.refl h
      · next hfits =>
        have hnil : text.length = 0 := by omega
        rw [hnil]
        exact Later.refl h
    · rw [if_neg hzero]
      split
      · exact Later.put (n := 0) h (hcut hzero) (Nat.zero_le _)
      · exact Later.put h (hcut hzero) (by omega)
  | stamped text =>
    unfold push
    dsimp only
    split
    · exact Later.put (n := 0) h (List.length_take_le _ _) (Nat.zero_le _)
    · refine Later.put h ?_ (by omega)
      rw [List.length_append, List.length_singleton]
      omega

/-- **Nothing is written outside of the room behind the cursor**, whether the run succeeds or
not. -/
theorem frame (h : block.Valid) : Later block (run terminator scraps pieces block).1 := by
  induction pieces generalizing block with
  | nil => exact Later.refl h
  | cons piece rest ih =>
    have hpush : Later block (push terminator scraps piece block).1 := push_later h
    unfold run
    split
    · exact hpush.trans (ih hpush.valid)
    · exact hpush

/-! ## The text -/

/-- The memory from one position to another. -/
def Block.between (block : Block α) (start stop : Nat) : List α :=
  (block.mem.drop start).take (stop - start)

/-- What a piece leaves that fits with something behind it. -/
structure Pushed (text : List α) (block block' : Block α) : Prop where
  pos : block'.pos = block.pos + text.length
  text : ∀ i, i < text.length → block'.mem[block.pos + i]? = text[i]?

theorem put_text (h : block.Valid) {text rest : List α} (hfit : (text ++ rest).length ≤ block.room) :
    Pushed text block ((block.put (text ++ rest)).advance text.length) := by
  obtain ⟨hle, hmem⟩ := h
  unfold Block.room at hfit
  refine ⟨rfl, fun i hi => ?_⟩
  rw [List.length_append] at hfit
  show (Circle.overwrite block.mem block.pos (text ++ rest))[block.pos + i]? = text[i]?
  rw [Circle.getElem?_overwrite (by rw [List.length_append]; omega),
    if_pos ⟨Nat.le_add_right _ _, by rw [List.length_append]; omega⟩, Nat.add_sub_cancel_left,
    List.getElem?_append_left hi]

/-- **A piece that fits is pushed whole**, one that is not copied if there is room behind it. -/
theorem push_fits (h : block.Valid) {more : Nat} (hs : Sealed more [piece])
    (hfit : piece.text.length + more ≤ block.room) :
    (push terminator scraps piece block).2 = true ∧
      Pushed piece.text block (push terminator scraps piece block).1 := by
  have hroom : block.room = block.stop - block.pos := rfl
  have hle := h.le
  cases piece with
  | copied text =>
    have hlen : text.length + more ≤ block.room := hfit
    have hput := @put_text _ block h text [] (by rw [List.append_nil]; omega)
    rw [List.append_nil] at hput
    unfold push
    dsimp only
    rw [if_neg (by omega)]
    exact ⟨rfl, hput⟩
  | printed text =>
    have hlen : text.length + more ≤ block.room := hfit
    have hmore : 0 < more := by simpa using hs
    have hput := @put_text _ block h text [terminator]
      (by rw [List.length_append, List.length_singleton]; omega)
    unfold push
    dsimp only
    rw [if_neg (by omega), if_neg (by omega), List.take_of_length_le (by omega)]
    exact ⟨rfl, hput⟩
  | stamped text =>
    have hlen : text.length + more ≤ block.room := hfit
    obtain ⟨hne, hmore⟩ : text ≠ [] ∧ 0 < more := by simpa using hs
    have hlength : text.length ≠ 0 := fun hz => hne (List.length_eq_zero_iff.mp hz)
    have hput := @put_text _ block h text [terminator]
      (by rw [List.length_append, List.length_singleton]; omega)
    unfold push
    dsimp only
    rw [if_neg (by omega)]
    exact ⟨rfl, hput⟩

theorem push_pos (h : (push terminator scraps piece block).2 = true) :
    (push terminator scraps piece block).1.pos = block.pos + piece.text.length := by
  cases piece with
  | copied text =>
    unfold push at h ⊢
    dsimp only at h ⊢
    split at h
    · cases h
    · next hfits => rw [if_neg hfits]; rfl
  | printed text =>
    unfold push at h ⊢
    dsimp only at h ⊢
    split at h
    · cases h
    · next hfits =>
      rw [if_neg hfits]
      split <;> rfl
  | stamped text =>
    unfold push at h ⊢
    dsimp only at h ⊢
    split at h
    · cases h
    · next hfits => rw [if_neg hfits]; rfl

/-- A text that does not fit is refused. -/
theorem run_refuses (h : block.Valid) (hlt : block.room < (texts pieces).length) :
    (run terminator scraps pieces block).2 = false := by
  induction pieces generalizing block with
  | nil => exact absurd hlt (Nat.not_lt_zero _)
  | cons piece rest ih =>
    unfold run
    split
    · next hp =>
      have hlater : Later block (push terminator scraps piece block).1 := push_later h
      have hpos := push_pos hp
      have hstop := hlater.stop
      have hle := hlater.valid.le
      refine ih hlater.valid ?_
      rw [texts_cons, List.length_append] at hlt
      unfold Block.room at hlt ⊢
      omega
    · rfl

/-- A sealed text that fits is pushed whole. -/
theorem run_fits (h : block.Valid) (hs : Sealed 0 pieces)
    (hfit : (texts pieces).length ≤ block.room) :
    (run terminator scraps pieces block).2 = true ∧
      Pushed (texts pieces) block (run terminator scraps pieces block).1 := by
  induction pieces generalizing block with
  | nil => exact ⟨rfl, rfl, fun i hi => absurd hi (Nat.not_lt_zero i)⟩
  | cons piece rest ih =>
    obtain ⟨hpiece, hrest⟩ := sealed_append.mp (show Sealed 0 ([piece] ++ rest) from hs)
    rw [texts_cons, List.length_append] at hfit
    obtain ⟨hok, hpos, htext⟩ := @push_fits _ terminator scraps piece block h _ hpiece hfit
    have hlater : Later block (push terminator scraps piece block).1 := push_later h
    have hstop := hlater.stop
    have hroom : (texts rest).length ≤ (push terminator scraps piece block).1.room := by
      unfold Block.room at hfit ⊢
      omega
    obtain ⟨hrun, hpos', htext'⟩ := ih hlater.valid hrest hroom
    have hframe := @frame _ terminator scraps rest _ hlater.valid
    unfold run
    rw [if_pos hok]
    refine ⟨hrun, ?_, fun i hi => ?_⟩
    · rw [hpos', hpos, texts_cons, List.length_append, Nat.add_assoc]
    · rw [texts_cons]
      by_cases hlt : i < piece.text.length
      · rw [List.getElem?_append_left hlt, ← htext i hlt]
        exact hframe.outside _ (by omega)
      · rw [texts_cons, List.length_append] at hi
        have hback : block.pos + i
            = (push terminator scraps piece block).1.pos + (i - piece.text.length) := by omega
        rw [List.getElem?_append_right (by omega), hback, htext' _ (by omega)]

/-- **A sealed text is pushed if and only if it fits.** -/
theorem run_iff (h : block.Valid) (hs : Sealed 0 pieces) :
    (run terminator scraps pieces block).2 = true ↔ (texts pieces).length ≤ block.room := by
  refine ⟨fun hrun => ?_, fun hfit => (run_fits h hs hfit).1⟩
  by_contra hlt
  rw [run_refuses h (Nat.lt_of_not_le hlt)] at hrun
  cases hrun

/-- **After a run that succeeds, the text stands between the old cursor and the new one.** -/
theorem run_text (h : block.Valid) (hs : Sealed 0 pieces)
    (hrun : (run terminator scraps pieces block).2 = true) :
    (run terminator scraps pieces block).1.between block.pos
      (run terminator scraps pieces block).1.pos = texts pieces := by
  have hfit := (run_iff h hs).mp hrun
  obtain ⟨-, hpos, htext⟩ := @run_fits _ terminator scraps pieces block h hs hfit
  unfold Block.between
  apply List.ext_getElem?
  intro i
  rw [List.getElem?_take, List.getElem?_drop]
  split
  · exact htext i (by omega)
  · rw [List.getElem?_eq_none (by omega)]

end Output
