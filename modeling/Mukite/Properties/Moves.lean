import Mukite.Properties.Framing

/-!
# The scan of a text that is written piece by piece

A stanza is written in pieces that end anywhere: in a tag, in a value, in character data. `Moves`
says from which state to which a piece takes the scan if the node does not end in it, so pieces are
put together where the states meet. A literal moves the scan as a computation shows, whatever is
inserted leaves the state as it is: plain text (`PlainText`) in a value or between the tags, and
elements (`Elements`) between the tags.
-/

namespace Mukite

/-! ## Text that is inserted -/

/-- Neither a bracket nor a quote character. -/
def plainChar (c : UInt8) : Bool := c != ch '<' && c != ch '>' && c != quote1 && c != quote2

/-- A string without markup. -/
def PlainText (text : Bytes) : Prop := text.all plainChar = true

instance (text : Bytes) : Decidable (PlainText text) := inferInstanceAs (Decidable (_ = true))

/-- Character data and elements, as the server sends them: quote characters in the character data
are escaped, or at least they pair up. -/
def Elements (text : Bytes) : Prop :=
  ∃ content : XmlContent, content.WellFormed ∧ RunsPaired content.tokens ∧ text = content.text

theorem plainText_nil : PlainText [] := rfl

theorem plainText_append {u v : Bytes} : PlainText (u ++ v) ↔ PlainText u ∧ PlainText v := by
  unfold PlainText
  rw [List.all_append, Bool.and_eq_true]

/-- A literal is plain if its characters are. -/
theorem plainText_lit {chars : List Char} (h : PlainText (chars.map ch)) :
    PlainText (lit (String.ofList chars)) := by
  rw [lit_ofList]
  exact h

theorem PlainText.char {text : Bytes} (h : PlainText text) {c : UInt8} (hc : c ∈ text) :
    c ≠ ch '<' ∧ c ≠ ch '>' ∧ c ≠ quote1 ∧ c ≠ quote2 := by
  have := List.all_eq_true.mp h c hc
  simpa [plainChar, and_assoc] using this

theorem PlainText.not_quoted {text : Bytes} (h : PlainText text) : quote1 ∉ text :=
  fun hm => (h.char hm).2.2.1 rfl

theorem PlainText.not_lt {text : Bytes} (h : PlainText text) : ch '<' ∉ text :=
  fun hm => (h.char hm).1 rfl

theorem PlainText.escaped {text : Bytes} (h : PlainText text) : Escaped text := by
  refine List.all_eq_true.mpr fun c hc => ?_
  obtain ⟨hlt, -, h1, h2⟩ := h.char hc
  simp [hlt, h1, h2]

theorem plainChar_digit {d : Char} (h : d.isDigit = true) : plainChar (ch d) = true := by
  have hall : ∀ n < 10, plainChar (UInt8.ofNat (48 + n)) = true := by decide
  have hbounds : 48 ≤ d.toNat ∧ d.toNat ≤ 57 := by
    simpa [Char.isDigit, UInt32.le_iff_toNat_le] using h
  have hpos : d.toNat = 48 + (d.toNat - 48) := by omega
  unfold ch
  rw [hpos]
  exact hall _ (by omega)

/-- The digits of a number are plain. -/
theorem plainText_natRepr (n : Nat) : PlainText (lit n.repr) := by
  refine List.all_eq_true.mpr fun c hc => ?_
  unfold lit at hc
  rw [Nat.toList_repr] at hc
  obtain ⟨d, hd, rfl⟩ := List.mem_map.mp hc
  exact plainChar_digit (Nat.isDigit_of_mem_toDigits (by decide) (by decide) hd)

/-- So is what `%d` prints. -/
theorem plainText_toString (v : Int) : PlainText (lit (toString v)) := by
  rw [Int.toString_eq_repr, Int.repr_eq_if]
  split
  · exact plainText_natRepr _
  · rw [lit_append, plainText_append]
    exact ⟨plainText_lit (by decide), plainText_natRepr _⟩

/-! ## Moves -/

namespace TextScan

variable {t t' t'' : TextScan} {u v w : Bytes}

/-- A piece takes the scan from one state to another, and the node does not end in it. -/
def Moves (t t' : TextScan) (w : Bytes) : Prop :=
  t.after w = t' ∧ (t.levels w).all (fun l => decide (0 < l)) = true

instance : Decidable (Moves t t' w) := inferInstanceAs (Decidable (_ ∧ _))

theorem moves_nil (t : TextScan) : Moves t t [] := ⟨rfl, rfl⟩

theorem Moves.append (h : Moves t t' u) (h' : Moves t' t'' v) : Moves t t'' (u ++ v) := by
  obtain ⟨rfl, hl⟩ := h
  obtain ⟨ha, hl'⟩ := h'
  refine ⟨(after_append t u v).trans ha, ?_⟩
  rw [levels_append, List.all_append, hl, hl']
  rfl

/-- A piece that leaves the state as it is. -/
theorem Moves.keep (h : Moves t t' u) (h' : Moves t' t' v) : Moves t t' (u ++ v) := h.append h'

theorem after_shift (d : Int) (t : TextScan) (w : Bytes) :
    (t.shift d).after w = (t.after w).shift d := by
  induction w generalizing t with
  | nil => rfl
  | cons c rest ih => rw [after, after, next_shift, ih]

theorem levels_shift (d : Int) (t : TextScan) (w : Bytes) :
    (t.shift d).levels w = (t.levels w).map (· + d) := by
  induction w generalizing t with
  | nil => rfl
  | cons c rest ih =>
    rw [levels, levels, next_shift, ih, List.map_append]
    cases (t.next c).2 <;> rfl

/-- What moves the scan at one level does so at a higher one. -/
theorem Moves.shift {d : Int} (h : Moves t t' u) (hd : 0 ≤ d) :
    Moves (t.shift d) (t'.shift d) u := by
  obtain ⟨rfl, hl⟩ := h
  refine ⟨after_shift d t u, ?_⟩
  rw [levels_shift, List.all_map, List.all_eq_true]
  intro l hm
  have hpos := of_decide_eq_true (List.all_eq_true.mp hl l hm)
  refine decide_eq_true (show 0 < l + d from ?_)
  omega

theorem moves_flatten {parts : List Bytes} (h : ∀ part ∈ parts, Moves t t part) :
    Moves t t parts.flatten := by
  induction parts with
  | nil => exact moves_nil t
  | cons part rest ih =>
    rw [List.flatten_cons]
    exact (h part List.mem_cons_self).append (ih fun p hp => h p (List.mem_cons_of_mem _ hp))

theorem Passes.moves (h : Passes t t' w) : Moves t t' w := by
  obtain ⟨hl, ha⟩ := h
  refine ⟨ha, ?_⟩
  rw [hl]
  rfl

theorem Closes.moves {l : Int} (h : Closes t t' l w) (hl : 0 < l) : Moves t t' w := by
  obtain ⟨hlevels, hafter⟩ := h.scan
  refine ⟨hafter, ?_⟩
  rw [hlevels]
  simpa using hl

/-- No node ends where the scan only moves. -/
theorem Moves.skip_none (h : Moves t t' w) : t.skip w = none := by
  refine skip_eq_none_iff.mpr fun hzero => ?_
  have hpos := of_decide_eq_true (List.all_eq_true.mp h.2 0 hzero)
  exact Int.lt_irrefl 0 hpos

/-- What a literal does is computed from its characters. -/
theorem moves_lit {chars : List Char} (h : Moves t t' (chars.map ch)) :
    Moves t t' (lit (String.ofList chars)) := by
  rw [lit_ofList]
  exact h

/-- The state in a value, in single quotes. -/
def inValue (L : Int) : TextScan := { inTag L with quote := some quote1 }

/-- Plain text in a value. -/
theorem moves_value {L : Int} (h : PlainText w) : Moves (inValue L) (inValue L) w :=
  (passes_value h.not_quoted).moves

/-- Plain text between tags. -/
theorem moves_text {L : Int} (h : PlainText w) : Moves (between L none) (between L none) w := by
  have hquote : quoteAfter none w = none :=
    quoteAfter_plain fun c hc => ⟨(h.char hc).2.2.2, (h.char hc).2.2.1⟩
  have hpasses := @passes_between w L none h.not_lt
  rw [hquote] at hpasses
  exact hpasses.moves

/-- So is text with its markup escaped. -/
theorem moves_escaped {L : Int} {text : Bytes} (h : Escaped text) :
    Moves (between L none) (between L none) text := by
  have hquote : quoteAfter none text = none :=
    quoteAfter_plain fun c hc => ⟨(h.char hc).2.2, (h.char hc).2.1⟩
  have hpasses := @passes_between text L none fun hm => (h.char hm).1 rfl
  rw [hquote] at hpasses
  exact hpasses.moves

/-- **Elements nest, so nothing in them comes down to the level below.** -/
theorem moves_elements {L : Int} (h : Elements w) (hL : 0 < L) :
    Moves (between L none) (between L none) w := by
  obtain ⟨content, hwf, hpaired, rfl⟩ := h
  obtain ⟨hlevels, hafter⟩ := @scan_tokens content.tokens none L hwf quoting_none
  obtain ⟨hdepth, hdepths⟩ := seen_content hwf hpaired L
  rw [hdepth, quoteAfter_tokens hwf hpaired] at hafter
  refine ⟨hafter, ?_⟩
  show ((between L none).levels (tokensText content.tokens)).all _ = true
  rw [hlevels, List.all_eq_true]
  intro l hl
  exact decide_eq_true (Int.lt_of_lt_of_le hL (hdepths l hl))

/-- A node is found to end where its last piece ends it. -/
theorem Moves.skip {n : Nat} (h : Moves t t' u) (hv : t'.skip v = some n) :
    t.skip (u ++ v) = some (u.length + n) := by
  obtain ⟨ha, hl⟩ := h
  have hno : 0 ∉ t.levels u := by
    intro hm
    have := List.all_eq_true.mp hl 0 hm
    exact absurd (of_decide_eq_true this) (Int.lt_irrefl 0)
  rw [skip_append, if_neg hno, ha, hv, Option.map_some, Nat.add_comm]

end TextScan

/-- A node is whole if its first pieces lead to a state in which the last one ends it. -/
theorem wholeNode_of_moves {t : TextScan} {front last : Bytes}
    (h : TextScan.Moves (TextScan.between 0 none) t front) (hlast : t.skip last = some last.length) :
    WholeNode (front ++ last) := by
  unfold WholeNode
  rw [skipNodeLoop_text, List.length_append]
  exact h.skip hlast

end Mukite
