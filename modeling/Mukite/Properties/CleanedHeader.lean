import Mukite.Properties.HeaderText

/-!
# What a clean-up leaves of a header

A cleaned header is a list of attributes again, once the blanks count as white space (`absorb`).
What survives is known by its names and values (`survivors`): blanking the last attribute with a
name takes away its last value and nothing else.
-/

namespace Mukite

open HeaderPiece

variable {word : Bytes} {f : AttrText → HeaderPiece}

/-! ## A cleaned header as a list of attributes -/

/-- The attributes of a list of pieces, with the blanks before them as white space, and what is
left behind the last one. -/
def absorb (space : Bytes) : List HeaderPiece → List AttrText × Bytes
  | [] => ([], space)
  | .kept a :: ps =>
    ({ a with lead := space ++ a.lead } :: (absorb [] ps).1, (absorb [] ps).2)
  | .blanked a :: ps => absorb (space ++ (HeaderPiece.blanked a).text) ps
  | .switched a :: ps =>
    ({ a with lead := space ++ (a.lead ++ lit "  "), name := lit "to" } :: (absorb [] ps).1,
      (absorb [] ps).2)

theorem attrsText_absorb : ∀ (ps : List HeaderPiece) (space : Bytes),
    attrsText (absorb space ps).1 ++ (absorb space ps).2 = space ++ piecesText ps
  | [], space => by simp [absorb]
  | .kept a :: ps, space => by
    have ih := attrsText_absorb ps []
    rw [List.nil_append] at ih
    rw [absorb, piecesText_cons, ← ih]
    simp [AttrText.text, AttrText.rest, HeaderPiece.text]
  | .blanked a :: ps, space => by
    rw [absorb, piecesText_cons, attrsText_absorb ps, List.append_assoc]
  | .switched a :: ps, space => by
    have ih := attrsText_absorb ps []
    have hto : lit "  to" = lit "  " ++ lit "to" := by decide
    rw [List.nil_append] at ih
    rw [absorb, piecesText_cons, ← ih]
    simp [AttrText.text, AttrText.rest, HeaderPiece.text, hto]

/-- Where an attribute of a cleaned header comes from. -/
inductive Comes (ps : List HeaderPiece) (x : AttrText) : Prop
  | kept (a : AttrText) (space : Bytes) (hm : .kept a ∈ ps)
      (hspace : ∀ c ∈ space, whitespace c = true) (h : x = { a with lead := space ++ a.lead })
  | switched (a : AttrText) (space : Bytes) (hm : .switched a ∈ ps)
      (hspace : ∀ c ∈ space, whitespace c = true)
      (h : x = { a with lead := space ++ (a.lead ++ lit "  "), name := lit "to" })

theorem Comes.cons {p : HeaderPiece} {ps : List HeaderPiece} {x : AttrText} (h : Comes ps x) :
    Comes (p :: ps) x := by
  cases h with
  | kept a space hm hspace h => exact .kept a space (List.mem_cons_of_mem _ hm) hspace h
  | switched a space hm hspace h => exact .switched a space (List.mem_cons_of_mem _ hm) hspace h

theorem white_blanked {a : AttrText} (h : ∀ c ∈ a.lead, whitespace c = true) :
    ∀ c ∈ (HeaderPiece.blanked a).text, whitespace c = true := by
  intro c hc
  rcases List.mem_append.mp hc with hc | hc
  · exact h c hc
  · rw [(List.mem_replicate.mp hc).2]
    rfl

theorem white_append {space space' : Bytes} (h : ∀ c ∈ space, whitespace c = true)
    (h' : ∀ c ∈ space', whitespace c = true) : ∀ c ∈ space ++ space', whitespace c = true := by
  intro c hc
  rcases List.mem_append.mp hc with hc | hc
  · exact h c hc
  · exact h' c hc

/-- **Only white space stands between the attributes of a cleaned header.** -/
theorem absorb_comes : ∀ {ps : List HeaderPiece} {space : Bytes},
    (∀ p ∈ ps, ∀ c ∈ p.attr.lead, whitespace c = true) → (∀ c ∈ space, whitespace c = true) →
    (∀ x ∈ (absorb space ps).1, Comes ps x) ∧ ∀ c ∈ (absorb space ps).2, whitespace c = true
  | [], space, _, hspace => ⟨by simp [absorb], hspace⟩
  | .kept a :: ps, space, hps, hspace => by
    obtain ⟨ih, hrest⟩ := @absorb_comes ps [] (fun p hp => hps p (List.mem_cons_of_mem _ hp))
      (by simp)
    refine ⟨fun x hx => ?_, hrest⟩
    rcases List.mem_cons.mp hx with rfl | hx
    · exact .kept a space List.mem_cons_self hspace rfl
    · exact (ih x hx).cons
  | .blanked a :: ps, space, hps, hspace => by
    obtain ⟨ih, hrest⟩ := @absorb_comes ps (space ++ (HeaderPiece.blanked a).text)
      (fun p hp => hps p (List.mem_cons_of_mem _ hp))
      (white_append hspace (white_blanked (hps _ List.mem_cons_self)))
    exact ⟨fun x hx => (ih x hx).cons, hrest⟩
  | .switched a :: ps, space, hps, hspace => by
    obtain ⟨ih, hrest⟩ := @absorb_comes ps [] (fun p hp => hps p (List.mem_cons_of_mem _ hp))
      (by simp)
    refine ⟨fun x hx => ?_, hrest⟩
    rcases List.mem_cons.mp hx with rfl | hx
    · exact .switched a space List.mem_cons_self hspace rfl
    · exact (ih x hx).cons

/-- Name and value of an attribute. -/
def AttrText.pair (a : AttrText) : Bytes × Bytes := (a.name, a.value)

/-- Name and value of what is left of an attribute. -/
def HeaderPiece.survivor : HeaderPiece → Option (Bytes × Bytes)
  | .kept a => some a.pair
  | .blanked _ => none
  | .switched a => some (lit "to", a.value)

def survivors (ps : List HeaderPiece) : List (Bytes × Bytes) := ps.filterMap survivor

theorem pairs_absorb : ∀ (ps : List HeaderPiece) (space : Bytes),
    (absorb space ps).1.map AttrText.pair = survivors ps
  | [], _ => rfl
  | .kept a :: ps, space => by
    have ih := pairs_absorb ps []
    rw [absorb, List.map_cons, ih]
    rfl
  | .blanked a :: ps, space => by
    rw [absorb, pairs_absorb ps]
    rfl
  | .switched a :: ps, space => by
    have ih := pairs_absorb ps []
    rw [absorb, List.map_cons, ih]
    rfl

/-! ## What survives a clean-up -/

/-- Attributes, some of them blanked. -/
def Blanks (ps : List HeaderPiece) : Prop := ∀ p ∈ ps, ∀ a, p ≠ .switched a

theorem blanks_map_kept (attrs : List AttrText) : Blanks (attrs.map .kept) := by
  intro p hp a
  obtain ⟨b, -, rfl⟩ := List.mem_map.mp hp
  exact HeaderPiece.noConfusion

theorem Blanks.tail {p : HeaderPiece} {ps : List HeaderPiece} (h : Blanks (p :: ps)) : Blanks ps :=
  fun q hq => h q (List.mem_cons_of_mem _ hq)

theorem Blanks.markLast : ∀ {ps : List HeaderPiece}, Blanks ps →
    Blanks (markLast word .blanked ps)
  | [], h => h
  | q :: ps, h => by
    intro p hp a
    rw [Mukite.markLast] at hp
    split at hp
    · rcases List.mem_cons.mp hp with rfl | hp
      · exact h _ List.mem_cons_self a
      · exact h.tail.markLast p hp a
    · split at hp
      · rcases List.mem_cons.mp hp with rfl | hp
        · exact HeaderPiece.noConfusion
        · exact h.tail p hp a
      · exact h p hp a

theorem blanks_nameless (attrs : List AttrText) : Blanks (nameless attrs) :=
  (blanks_map_kept attrs).markLast.markLast

/-- The values that a list of attributes has under a name. -/
def valuesOf (word : Bytes) (pairs : List (Bytes × Bytes)) : List Bytes :=
  (pairs.filter (fun x => x.1 == word)).map Prod.snd

@[simp] theorem valuesOf_nil : valuesOf word [] = [] := rfl

theorem valuesOf_cons_self {v : Bytes} {pairs : List (Bytes × Bytes)} :
    valuesOf word ((word, v) :: pairs) = v :: valuesOf word pairs := by
  unfold valuesOf
  rw [List.filter_cons_of_pos (by simp), List.map_cons]

theorem valuesOf_cons_ne {w v : Bytes} {pairs : List (Bytes × Bytes)} (h : w ≠ word) :
    valuesOf word ((w, v) :: pairs) = valuesOf word pairs := by
  unfold valuesOf
  rw [List.filter_cons_of_neg (by simpa using h)]

theorem valuesOf_append (pairs more : List (Bytes × Bytes)) :
    valuesOf word (pairs ++ more) = valuesOf word pairs ++ valuesOf word more := by
  unfold valuesOf
  rw [List.filter_append, List.map_append]

@[simp] theorem survivors_kept (a : AttrText) (ps : List HeaderPiece) :
    survivors (.kept a :: ps) = a.pair :: survivors ps := rfl

@[simp] theorem survivors_blanked (a : AttrText) (ps : List HeaderPiece) :
    survivors (.blanked a :: ps) = survivors ps := rfl

@[simp] theorem survivors_switched (a : AttrText) (ps : List HeaderPiece) :
    survivors (.switched a :: ps) = (lit "to", a.value) :: survivors ps := rfl

theorem survivors_map_kept (attrs : List AttrText) :
    survivors (attrs.map .kept) = attrs.map AttrText.pair := by
  induction attrs with
  | nil => rfl
  | cons a attrs ih => rw [List.map_cons, survivors_kept, ih, List.map_cons]

/-- A name stands among the attributes exactly when it has a value. -/
theorem any_named_iff : ∀ {ps : List HeaderPiece}, Blanks ps →
    (ps.any (named word) = false ↔ valuesOf word (survivors ps) = [])
  | [], _ => by simp [survivors]
  | .kept a :: ps, h => by
    have ih := @any_named_iff ps h.tail
    rw [List.any_cons, survivors_kept]
    by_cases ha : a.name = word
    · subst ha
      rw [AttrText.pair, valuesOf_cons_self]
      simp [named]
    · rw [AttrText.pair, valuesOf_cons_ne ha, ← ih]
      simp [named, ha]
  | .blanked a :: ps, h => by
    have ih := @any_named_iff ps h.tail
    rw [List.any_cons, survivors_blanked, ← ih]
    simp [named]
  | .switched a :: ps, h => absurd rfl (h _ List.mem_cons_self a)

/-- **Marking the last attribute with a name takes away its last value.** -/
theorem valuesOf_markLast_self
    (hmark : ∀ (a : AttrText) (ps : List HeaderPiece),
      valuesOf word (survivors (f a :: ps)) = valuesOf word (survivors ps)) :
    ∀ {ps : List HeaderPiece}, Blanks ps →
      valuesOf word (survivors (markLast word f ps)) = (valuesOf word (survivors ps)).dropLast
  | [], _ => rfl
  | p :: ps, h => by
    have ih := valuesOf_markLast_self hmark h.tail
    have hiff := @any_named_iff word ps h.tail
    rw [markLast]
    cases hany : ps.any (named word) with
    | true =>
      have hne : valuesOf word (survivors ps) ≠ [] := by
        intro he
        rw [hiff.mpr he] at hany
        cases hany
      rw [if_pos rfl]
      cases p with
      | kept a =>
        rw [survivors_kept, survivors_kept, AttrText.pair]
        by_cases ha : a.name = word
        · subst ha
          rw [valuesOf_cons_self, valuesOf_cons_self, ih, List.dropLast_cons_of_ne_nil hne]
        · rw [valuesOf_cons_ne ha, valuesOf_cons_ne ha, ih]
      | blanked a => rw [survivors_blanked, survivors_blanked, ih]
      | switched a => exact absurd rfl (h _ List.mem_cons_self a)
    | false =>
      have hnil := hiff.mp hany
      rw [if_neg Bool.false_ne_true]
      cases p with
      | kept a =>
        by_cases ha : a.name = word
        · subst ha
          rw [if_pos (by simp [named]), hmark, survivors_kept, AttrText.pair, valuesOf_cons_self,
            hnil]
          rfl
        · rw [if_neg (by simp [named, ha]), survivors_kept, AttrText.pair, valuesOf_cons_ne ha,
            hnil]
          rfl
      | blanked a =>
        rw [if_neg (by simp [named]), survivors_blanked, hnil]
        rfl
      | switched a => exact absurd rfl (h _ List.mem_cons_self a)

theorem valuesOf_blankedLast_self {ps : List HeaderPiece} (h : Blanks ps) :
    valuesOf word (survivors (markLast word .blanked ps))
      = (valuesOf word (survivors ps)).dropLast :=
  valuesOf_markLast_self (fun _ _ => rfl) h

theorem valuesOf_switchedLast_ne {w : Bytes} (hne : lit "to" ≠ w) (a : AttrText)
    (ps : List HeaderPiece) :
    valuesOf w (survivors (.switched a :: ps)) = valuesOf w (survivors ps) := by
  rw [survivors_switched, valuesOf_cons_ne hne]

/-- **Switching `from` to `to` moves its last value there.** -/
theorem valuesOf_switchedLast : ∀ {ps : List HeaderPiece}, Blanks ps →
    (valuesOf (lit "to") (survivors (markLast (lit "from") .switched ps))).Perm
      ((valuesOf (lit "from") (survivors ps)).getLast?.toList ++
        valuesOf (lit "to") (survivors ps))
  | [], _ => .refl _
  | p :: ps, h => by
    have ih := valuesOf_switchedLast h.tail
    have hiff := @any_named_iff (lit "from") ps h.tail
    have hne : lit "from" ≠ lit "to" := by decide
    rw [markLast]
    cases hany : ps.any (named (lit "from")) with
    | true =>
      rw [if_pos rfl]
      cases p with
      | kept a =>
        rw [survivors_kept, survivors_kept, AttrText.pair]
        by_cases hfrom : a.name = lit "from"
        · obtain ⟨v, values, hvalues⟩ : ∃ v values,
              valuesOf (lit "from") (survivors ps) = v :: values := by
            cases hv : valuesOf (lit "from") (survivors ps) with
            | nil =>
              rw [hiff.mpr hv] at hany
              cases hany
            | cons v values => exact ⟨v, values, rfl⟩
          rw [hvalues] at ih
          rw [hfrom, valuesOf_cons_ne hne, valuesOf_cons_self, valuesOf_cons_ne hne, hvalues,
            List.getLast?_cons_cons]
          exact ih
        · rw [valuesOf_cons_ne hfrom]
          by_cases hto : a.name = lit "to"
          · rw [hto, valuesOf_cons_self, valuesOf_cons_self]
            exact (ih.cons _).trans List.perm_middle.symm
          · rw [valuesOf_cons_ne hto, valuesOf_cons_ne hto]
            exact ih
      | blanked a => exact ih
      | switched a => exact absurd rfl (h _ List.mem_cons_self a)
    | false =>
      have hnil := hiff.mp hany
      rw [if_neg Bool.false_ne_true]
      cases p with
      | kept a =>
        by_cases hfrom : a.name = lit "from"
        · rw [if_pos (by simp [named, hfrom]), survivors_switched, survivors_kept, AttrText.pair,
            hfrom, valuesOf_cons_self, valuesOf_cons_self, valuesOf_cons_ne hne, hnil]
          exact .refl _
        · rw [if_neg (by simp [named, hfrom]), survivors_kept, AttrText.pair,
            valuesOf_cons_ne hfrom, hnil]
          exact .refl _
      | blanked a =>
        rw [if_neg (by simp [named]), survivors_blanked, hnil]
        exact .refl _
      | switched a => exact absurd rfl (h _ List.mem_cons_self a)

/-- A mark leaves the values under the names that it has nothing to do with. -/
theorem valuesOf_markLast_ne {w : Bytes} (hne : word ≠ w)
    (hmark : ∀ (a : AttrText) (ps : List HeaderPiece),
      valuesOf w (survivors (f a :: ps)) = valuesOf w (survivors ps)) :
    ∀ {ps : List HeaderPiece},
      valuesOf w (survivors (markLast word f ps)) = valuesOf w (survivors ps)
  | [] => rfl
  | p :: ps => by
    have ih := @valuesOf_markLast_ne w hne hmark ps
    rw [markLast]
    split
    · cases p with
      | kept a =>
        rw [survivors_kept, survivors_kept, AttrText.pair]
        by_cases ha : a.name = w
        · rw [ha, valuesOf_cons_self, valuesOf_cons_self, ih]
        · rw [valuesOf_cons_ne ha, valuesOf_cons_ne ha, ih]
      | blanked a => rw [survivors_blanked, survivors_blanked, ih]
      | switched a =>
        rw [survivors_switched, survivors_switched]
        by_cases ha : lit "to" = w
        · rw [ha, valuesOf_cons_self, valuesOf_cons_self, ih]
        · rw [valuesOf_cons_ne ha, valuesOf_cons_ne ha, ih]
    · split
      · next hnamed =>
        cases p with
        | kept a =>
          have ha : a.name = word := by simpa [named] using hnamed
          rw [hmark, survivors_kept, AttrText.pair, valuesOf_cons_ne (ha.trans_ne hne)]
        | blanked a => cases hnamed
        | switched a => cases hnamed
      · rfl

theorem valuesOf_blankedLast_ne {k : AttrKey} {w : Bytes} (hne : k.word ≠ w)
    {ps : List HeaderPiece} :
    valuesOf w (survivors (markLast k.word .blanked ps)) = valuesOf w (survivors ps) :=
  valuesOf_markLast_ne hne fun _ _ => rfl

theorem markLast_of_none : ∀ {ps : List HeaderPiece}, ps.any (named word) = false →
    markLast word f ps = ps
  | [], _ => rfl
  | p :: ps, h => by
    rw [List.any_cons, Bool.or_eq_false_iff] at h
    rw [markLast, h.1, h.2, if_neg Bool.false_ne_true, if_neg Bool.false_ne_true]

theorem filter_of_no_value {pairs : List (Bytes × Bytes)} (h : valuesOf word pairs = []) :
    pairs.filter (fun x => x.1 != word) = pairs := by
  rw [List.filter_eq_self]
  intro x hx
  rw [bne_iff_ne]
  rintro rfl
  have hm : x.2 ∈ valuesOf x.1 pairs :=
    List.mem_map.mpr ⟨x, List.mem_filter.mpr ⟨hx, by simp⟩, rfl⟩
  rw [h] at hm
  cases hm

/-- **Where no name stands twice, blanking takes away the attribute with the name.** -/
theorem survivors_markLast : ∀ {ps : List HeaderPiece}, Blanks ps →
    ((survivors ps).map Prod.fst).Nodup →
    survivors (markLast word .blanked ps) = (survivors ps).filter (fun x => x.1 != word)
  | [], _, _ => rfl
  | .blanked a :: ps, h, hnodup => by
    have ih := @survivors_markLast ps h.tail hnodup
    rw [markLast]
    cases hany : ps.any (named word) with
    | true =>
      rw [if_pos rfl, survivors_blanked, survivors_blanked]
      exact ih
    | false =>
      rw [markLast_of_none hany] at ih
      rw [if_neg Bool.false_ne_true, if_neg (by simp [named]), survivors_blanked]
      exact ih
  | .switched a :: ps, h, _ => absurd rfl (h _ List.mem_cons_self a)
  | .kept a :: ps, h, hnodup => by
    rw [survivors_kept, List.map_cons, List.nodup_cons] at hnodup
    obtain ⟨hfresh, hnodup⟩ := hnodup
    have ih := @survivors_markLast ps h.tail hnodup
    rw [markLast, survivors_kept]
    by_cases ha : a.name = word
    · -- no later attribute has the name
      subst ha
      have hnil : valuesOf a.name (survivors ps) = [] := by
        unfold valuesOf
        rw [List.map_eq_nil_iff, List.filter_eq_nil_iff]
        intro x hx hname
        rw [beq_iff_eq] at hname
        exact hfresh (List.mem_map.mpr ⟨x, hx, hname⟩)
      rw [(any_named_iff h.tail).mpr hnil, if_neg Bool.false_ne_true, if_pos (by simp [named]),
        List.filter_cons_of_neg (by simp [AttrText.pair]), filter_of_no_value hnil]
      rfl
    · rw [List.filter_cons_of_pos (by simpa [AttrText.pair] using ha)]
      cases hany : ps.any (named word) with
      | true => rw [if_pos rfl, survivors_kept, ih]
      | false =>
        rw [markLast_of_none hany] at ih
        rw [if_neg Bool.false_ne_true, if_neg (by simpa [named] using ha), survivors_kept, ← ih]

end Mukite
