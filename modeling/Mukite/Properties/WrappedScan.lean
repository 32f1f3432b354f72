import Mukite.Properties.Received

/-!
# A node that goes round the end of the buffer

`xmlfsm_skip_node` tells an empty node by the distance of two pointers, that of the last `/` and
that of the `>`. When the border of the ring buffer lies between the two, they are far apart, and
an empty node counts as the end of its parent too.

The scan is put in terms of the text alone (`TextScan`): instead of a position it keeps whether the
last character was a `/` of a tag. Over a contiguous text that is what the distance says; at the
border of a ring buffer the last character is forgotten (`TextScan.passed`).

* **`scans_as_linear_iff`**: exactly when the scan of a wrapped text ends as that of the contiguous
  one.
* `split_empty_node`: an empty node that is split between its last two characters.
-/

namespace Mukite

/-! ## The scan of a text -/

/-- `slash` says whether a `/` has been seen in the tag, and if so, whether just now. -/
structure TextScan where
  level : Int := 0
  tag : Bool := false
  slash : Option Bool := none
  quote : Option UInt8 := none
deriving DecidableEq, Repr

namespace TextScan

/-- Another character has been passed. -/
def passed (t : TextScan) : TextScan := { t with slash := t.slash.map (fun _ => false) }

/-- One character, and the nesting level after it if it ends a tag with a `/`. -/
def next (t : TextScan) (c : UInt8) : TextScan × Option Int :=
  match t.quote with
  | some q => (if c == q then { t.passed with quote := none } else t.passed, none)
  | none =>
    if c == ch '<' then ({ t.passed with level := t.level + 1, tag := true }, none)
    else if c == ch '/' then (if t.tag then { t with slash := some true } else t.passed, none)
    else if c == ch '>' then
      match t.tag, t.slash with
      | true, some now =>
        let level := if now then t.level - 1 else t.level - 2
        ({ t with level := level, slash := none, tag := false }, some level)
      | _, _ => ({ t.passed with tag := false }, none)
    else if c == quote2 || c == quote1 then ({ t.passed with quote := some c }, none)
    else (t.passed, none)

/-- The number of characters up to the end of the node. -/
def skip (t : TextScan) : Bytes → Option Nat
  | [] => none
  | c :: rest =>
    if (t.next c).2 = some 0 then some 1 else ((t.next c).1.skip rest).map (· + 1)

/-- The state after a text, whatever ends in it. -/
def after (t : TextScan) : Bytes → TextScan
  | [] => t
  | c :: rest => (t.next c).1.after rest

/-- The nesting levels after the tags of a text that have a `/`. -/
def levels (t : TextScan) : Bytes → List Int
  | [] => []
  | c :: rest => (t.next c).2.toList ++ (t.next c).1.levels rest

variable {t t' : TextScan} {c : UInt8} {u v w : Bytes} {n : Nat} {d : Int}

theorem skip_le : ∀ {w : Bytes} {t : TextScan} {n : Nat}, t.skip w = some n → n ≤ w.length
  | [], _, _, h => by cases h
  | c :: rest, t, n, h => by
    rw [skip] at h
    rw [List.length_cons]
    split at h
    · cases h
      exact Nat.succ_pos _
    · obtain ⟨m, hm, rfl⟩ := Option.map_eq_some_iff.mp h
      exact Nat.succ_le_succ (skip_le hm)

theorem skip_pos : ∀ {w : Bytes} {t : TextScan}, t.skip w = some n → 0 < n
  | [], _, h => by cases h
  | c :: rest, t, h => by
    rw [skip] at h
    split at h
    · cases h
      exact Nat.one_pos
    · obtain ⟨m, -, rfl⟩ := Option.map_eq_some_iff.mp h
      exact Nat.succ_pos m

/-- **A node ends in a text if and only if the level comes down to 0 there.** -/
theorem skip_eq_none_iff : t.skip w = none ↔ 0 ∉ t.levels w := by
  induction w generalizing t with
  | nil => simp [skip, levels]
  | cons c rest ih =>
    rw [skip, levels, List.mem_append, not_or]
    split
    · next h => simp [h]
    · next h => simp [ih, h]

/-- The scan of two pieces, one behind the other. -/
theorem skip_append : t.skip (u ++ v) =
    if 0 ∈ t.levels u then t.skip u else ((t.after u).skip v).map (· + u.length) := by
  induction u generalizing t with
  | nil => simp [levels, after]
  | cons c rest ih =>
    rw [List.cons_append, skip, levels, skip, after, ih, List.length_cons]
    by_cases h : (t.next c).2 = some 0
    · simp [h]
    · by_cases hrest : 0 ∈ (t.next c).1.levels rest
      · simp [h, hrest]
      · simp [h, hrest, Function.comp_def, Nat.add_assoc]

/-! ### Another nesting level -/

/-- The same state at another nesting level. -/
def shift (d : Int) (t : TextScan) : TextScan := { t with level := t.level + d }

theorem next_shift (d : Int) (t : TextScan) (c : UInt8) :
    (t.shift d).next c = ((t.next c).1.shift d, (t.next c).2.map (· + d)) := by
  obtain ⟨level, tag, slash, quote⟩ := t
  unfold next shift passed
  cases quote with
  | some q =>
    dsimp only
    split <;> rfl
  | none =>
    dsimp only
    split_ifs
    · simp [Int.add_right_comm]
    · rfl
    · rfl
    · cases tag with
      | false => rfl
      | true =>
        cases slash with
        | none => rfl
        | some now =>
          cases now <;> simp <;> omega
    · rfl
    · rfl

/-- Two scans at different levels agree only if neither comes to an end. -/
theorem skip_cons_eq_iff {rest : Bytes} (hd : d ≠ 0) (hstate : (t'.next c).1 = (t.next c).1.shift d)
    (hlevel : (t'.next c).2 = (t.next c).2.map (· + d))
    (hrest : (t.next c).1.skip rest = ((t.next c).1.shift d).skip rest ↔
      ∀ l ∈ (t.next c).1.levels rest, l ≠ 0 ∧ l + d ≠ 0) :
    t.skip (c :: rest) = t'.skip (c :: rest) ↔
      ∀ l ∈ t.levels (c :: rest), l ≠ 0 ∧ l + d ≠ 0 := by
  have hinj : Function.Injective (fun n : Nat => n + 1) := fun a b h => Nat.succ.inj h
  rw [skip, skip, levels, hstate, hlevel]
  cases hl : (t.next c).2 with
  | none => simpa using (Option.map_injective hinj).eq_iff.trans hrest
  | some l =>
    simp only [Option.map_some, Option.some.injEq, Option.toList_some, List.singleton_append,
      List.forall_mem_cons]
    by_cases h0 : l = 0
    · -- only the first scan ends here
      have hne : ¬ l + d = 0 := by omega
      rw [if_pos h0, if_neg hne]
      refine iff_of_false (fun h => ?_) (fun h => h.1.1 h0)
      obtain ⟨m, hm, hm1⟩ := Option.map_eq_some_iff.mp h.symm
      have := skip_pos hm
      omega
    · by_cases h1 : l + d = 0
      · -- only the second scan ends here
        rw [if_neg h0, if_pos h1]
        refine iff_of_false (fun h => ?_) (fun h => h.1.2 h1)
        obtain ⟨m, hm, hm1⟩ := Option.map_eq_some_iff.mp h
        have := skip_pos hm
        omega
      · rw [if_neg h0, if_neg h1, (Option.map_injective hinj).eq_iff, hrest]
        simp [h0, h1]

theorem skip_shift_eq_iff (hd : d ≠ 0) (t : TextScan) (w : Bytes) :
    t.skip w = (t.shift d).skip w ↔ ∀ l ∈ t.levels w, l ≠ 0 ∧ l + d ≠ 0 := by
  induction w generalizing t with
  | nil => simp [skip, levels]
  | cons c rest ih =>
    have hnext := next_shift d t c
    exact skip_cons_eq_iff hd (congrArg Prod.fst hnext) (congrArg Prod.snd hnext) (ih _)

/-! ### The border -/

/-- The border lies between the two characters that end an empty node. -/
def SplitTag (t : TextScan) (v : Bytes) : Prop :=
  t.quote = none ∧ t.tag = true ∧ t.slash = some true ∧ v.head? = some (ch '>')

instance (t : TextScan) (v : Bytes) : Decidable (SplitTag t v) := by
  unfold SplitTag
  infer_instance

/-- At a split tag the level is one too low after the border. -/
theorem next_passed_of_split (h : SplitTag t (c :: v)) :
    t.passed.next c = ((t.next c).1.shift (-1), (t.next c).2.map (· + -1)) := by
  obtain ⟨level, tag, slash, quote⟩ := t
  obtain ⟨rfl, rfl, rfl, hc⟩ := h
  obtain rfl : c = ch '>' := Option.some.inj hc
  have hlt : (ch '>' == ch '<') = false := by decide
  have hslash : (ch '>' == ch '/') = false := by decide
  simp only [next, passed, shift, hlt, hslash, beq_self_eq_true, Option.map_some]
  simp
  omega

/-- Elsewhere the last character does not matter. -/
theorem next_passed (h : ¬ SplitTag t (c :: v)) : t.passed.next c = t.next c := by
  obtain ⟨level, tag, slash, quote⟩ := t
  unfold next passed
  cases quote with
  | some q => cases slash <;> rfl
  | none =>
    dsimp only
    split_ifs with hlt hslash htag hgt hquote
    · cases slash <;> rfl
    · rfl
    · cases slash <;> rfl
    · cases tag with
      | false => cases slash <;> rfl
      | true =>
        cases slash with
        | none => rfl
        | some now =>
          cases now with
          | false => rfl
          | true => exact absurd ⟨rfl, rfl, rfl, congrArg some (eq_of_beq hgt)⟩ h
    · cases slash <;> rfl
    · cases slash <;> rfl

/-- **Forgetting the last character matters at a split tag, if the level then comes down to 1.** -/
theorem skip_passed_eq_iff : t.skip v = t.passed.skip v ↔
    SplitTag t v → ∀ l ∈ t.levels v, l ≠ 0 ∧ l ≠ 1 := by
  cases v with
  | nil => simp [skip, levels]
  | cons c rest =>
    by_cases h : SplitTag t (c :: rest)
    · have hnext := next_passed_of_split h
      rw [skip_cons_eq_iff (by decide) (congrArg Prod.fst hnext) (congrArg Prod.snd hnext)
        (skip_shift_eq_iff (by decide) _ rest), imp_iff_right h]
      refine forall₂_congr fun l _ => and_congr_right fun _ => ?_
      omega
    · rw [skip, skip, next_passed h]
      exact iff_of_true rfl fun hs => absurd hs h

end TextScan

/-! ## The scan of the code -/

/-- The state of the code at a position, as the text alone determines it. -/
def SkipState.text (st : SkipState) (pos : Nat) : TextScan where
  level := st.nestingLevel
  tag := st.tag
  slash := st.tagClosingPos.map (fun closing => pos - closing == 1)
  quote := st.quoteChar

section Code

variable {st st' : SkipState} {pos : Nat} {c : UInt8}

theorem text_succ (h : ∀ closing ∈ st.tagClosingPos, closing ≠ pos) :
    st.text (pos + 1) = (st.text pos).passed := by
  unfold SkipState.text TextScan.passed
  cases hc : st.tagClosingPos with
  | none => rfl
  | some closing =>
    have hne := h closing hc
    have hdist : (pos + 1 - closing == 1) = false := by
      rw [beq_eq_false_iff_ne]
      omega
    simp [hdist]

/-- What one round of the code does to the state of the text. -/
inductive CharCase (st : SkipState) (pos : Nat) (c : UInt8) : Prop
  | ends (h : skipChar st pos c = none) (htext : ((st.text pos).next c).2 = some 0)
  | goes (st' : SkipState) (h : skipChar st pos c = some st')
      (htext : ((st.text pos).next c).2 ≠ some 0)
      (hstate : st'.text (pos + 1) = ((st.text pos).next c).1)
      (hclosing : ∀ closing ∈ st'.tagClosingPos, closing = pos ∨ closing ∈ st.tagClosingPos)

/-- **One round of the code is one character of the text.** -/
theorem skipChar_case (h : ∀ closing ∈ st.tagClosingPos, closing ≠ pos) : CharCase st pos c := by
  have hsucc := text_succ h
  obtain ⟨level, tag, closing, quote⟩ := st
  have hold : ∀ p ∈ closing, p = pos ∨ p ∈ closing := fun _ hp => .inr hp
  have hpassed : closing.map (fun closing => pos + 1 - closing == 1)
      = closing.map (fun _ => false) :=
    (congrArg TextScan.slash hsucc).trans (Option.map_map _ _ closing)
  -- in quotes only the closing one counts
  cases quote with
  | some q =>
    by_cases hq : (c == q) = true
    · refine .goes ⟨level, tag, closing, none⟩ ?_ ?_ ?_ hold
      · simp [skipChar, hq]
      · simp [TextScan.next, SkipState.text]
      · simp [TextScan.next, hpassed, SkipState.text, TextScan.passed, hq]
    · refine .goes ⟨level, tag, closing, some q⟩ ?_ ?_ ?_ hold
      · simp [skipChar, hq]
      · simp [TextScan.next, SkipState.text]
      · simp [TextScan.next, hpassed, SkipState.text, TextScan.passed, hq]
  | none =>
    by_cases hlt : (c == ch '<') = true
    · refine .goes ⟨level + 1, true, closing, none⟩ ?_ ?_ ?_ hold
      · simp [skipChar, hlt]
      · simp [TextScan.next, SkipState.text, hlt]
      · simp [TextScan.next, hpassed, SkipState.text, TextScan.passed, hlt]
    by_cases hslash : (c == ch '/') = true
    · cases tag with
      | true =>
        refine .goes ⟨level, true, some pos, none⟩ ?_ ?_ ?_ ?_
        · simp [skipChar, hlt, hslash]
        · simp [TextScan.next, SkipState.text, hlt, hslash]
        · simp [TextScan.next, SkipState.text, hlt, hslash]
        · intro p hp
          exact .inl (Option.some.inj hp).symm
      | false =>
        refine .goes ⟨level, false, closing, none⟩ ?_ ?_ ?_ hold
        · simp [skipChar, hlt, hslash]
        · simp [TextScan.next, SkipState.text, hlt, hslash]
        · simp [TextScan.next, hpassed, SkipState.text, TextScan.passed, hlt, hslash]
    by_cases hgt : (c == ch '>') = true
    · cases tag with
      | false =>
        refine .goes ⟨level, false, closing, none⟩ ?_ ?_ ?_ hold
        · simp [skipChar, hlt, hslash, hgt]
        · simp [TextScan.next, SkipState.text, hlt, hslash, hgt]
        · simp [TextScan.next, hpassed, SkipState.text, TextScan.passed, hlt, hslash, hgt]
      | true =>
        cases closing with
        | none =>
          refine .goes ⟨level, false, none, none⟩ ?_ ?_ ?_ hold
          · simp [skipChar, hlt, hslash, hgt]
          · simp [TextScan.next, SkipState.text, hlt, hslash, hgt]
          · simp [TextScan.next, hpassed, SkipState.text, TextScan.passed, hlt, hslash, hgt]
        | some closing =>
          -- the distance of the two characters
          have hlevel : closeTag ⟨level, true, some closing, none⟩ pos closing
              = if (pos - closing == 1) = true then level - 1 else level - 2 := by
            unfold closeTag
            by_cases hd : pos - closing = 1 <;> simp [hd]
          have hnext : (SkipState.text ⟨level, true, some closing, none⟩ pos).next c
              = (⟨if (pos - closing == 1) = true then level - 1 else level - 2, false, none, none⟩,
                some (if (pos - closing == 1) = true then level - 1 else level - 2)) := by
            simp [TextScan.next, SkipState.text, hlt, hslash, hgt]
          by_cases hzero : closeTag ⟨level, true, some closing, none⟩ pos closing = 0
          · refine .ends ?_ ?_
            · simp [skipChar, hlt, hslash, hgt, hzero]
            · rw [hnext, ← hlevel, hzero]
          · refine .goes ⟨closeTag ⟨level, true, some closing, none⟩ pos closing, false, none, none⟩
              ?_ ?_ ?_ ?_
            · simp [skipChar, hlt, hslash, hgt, hzero]
            · rw [hnext, ← hlevel]
              exact fun he => hzero (Option.some.inj he)
            · rw [hnext, ← hlevel]
              rfl
            · intro p hp
              cases hp
    by_cases hquote : (c == quote2 || c == quote1) = true
    · refine .goes ⟨level, tag, closing, some c⟩ ?_ ?_ ?_ hold
      · simp [skipChar, hlt, hslash, hgt, hquote]
      · simp [TextScan.next, SkipState.text, hlt, hslash, hgt, hquote]
      · simp [TextScan.next, hpassed, SkipState.text, TextScan.passed, hlt, hslash, hgt, hquote]
    · refine .goes ⟨level, tag, closing, none⟩ ?_ ?_ ?_ hold
      · simp [skipChar, hlt, hslash, hgt, hquote]
      · simp [TextScan.next, SkipState.text, hlt, hslash, hgt, hquote]
      · simp [TextScan.next, hpassed, SkipState.text, TextScan.passed, hlt, hslash, hgt, hquote]

/-- How the code comes through a stretch of the buffer. -/
inductive StretchCase (st : SkipState) (pos : Nat) (bytes : Bytes) : Prop
  | ends (n : Nat) (h : skipStretch st pos bytes = .inr (pos + n))
      (htext : (st.text pos).skip bytes = some n)
  | goes (st' : SkipState) (h : skipStretch st pos bytes = .inl st')
      (htext : 0 ∉ (st.text pos).levels bytes)
      (hstate : st'.text (pos + bytes.length) = (st.text pos).after bytes)
      (hclosing : ∀ closing ∈ st'.tagClosingPos,
        pos ≤ closing ∧ closing < pos + bytes.length ∨ closing ∈ st.tagClosingPos)

/-- **A stretch of the buffer is scanned as a text**, unless the last `/` lies in it from before. -/
theorem skipStretch_case (bytes : Bytes) (st : SkipState) (pos : Nat)
    (h : ∀ closing ∈ st.tagClosingPos, closing < pos ∨ pos + bytes.length ≤ closing) :
    StretchCase st pos bytes := by
  induction bytes generalizing st pos with
  | nil => exact .goes st rfl List.not_mem_nil rfl fun closing hc => .inr hc
  | cons c rest ih =>
    rw [List.length_cons] at h
    have hchar : CharCase st pos c := skipChar_case fun closing hc => by
      have := h closing hc
      omega
    cases hchar with
    | ends hend htext =>
      refine .ends 1 ?_ ?_
      · rw [skipStretch, hend]
      · rw [TextScan.skip, if_pos htext]
    | goes st' hgo htext hstate hclosing =>
      have hrest : StretchCase st' (pos + 1) rest := ih st' (pos + 1) fun closing hc => by
        rcases hclosing closing hc with rfl | hc
        · exact .inl (Nat.lt_succ_self _)
        · have := h closing hc
          omega
      cases hrest with
      | ends n hend hskip =>
        refine .ends (n + 1) ?_ ?_
        · rw [skipStretch, hgo]
          exact hend.trans (congrArg Sum.inr (by omega))
        · rw [TextScan.skip, if_neg htext, ← hstate, hskip, Option.map_some]
      | goes st'' hgo' hlevels hstate' hclosing' =>
        refine .goes st'' ?_ ?_ ?_ ?_
        · rw [skipStretch, hgo]
          exact hgo'
        · rw [TextScan.levels, List.mem_append, ← hstate, not_or]
          exact ⟨fun hm => htext (Option.mem_toList.mp hm), hlevels⟩
        · have hpos : pos + (rest.length + 1) = pos + 1 + rest.length := by omega
          rw [List.length_cons, hpos, hstate', hstate, TextScan.after]
        · intro closing hc
          rw [List.length_cons]
          rcases hclosing' closing hc with hin | hc
          · exact .inl (by omega)
          · rcases hclosing closing hc with rfl | hc
            · exact .inl (by omega)
            · exact .inr hc

/-- The loop over a contiguous text is the loop up to its end. -/
theorem skipNodeLoop_stretch (bytes : Bytes) (st : SkipState) (pos : Nat) :
    skipNodeLoop st pos bytes = (skipStretch st pos bytes).getRight? := by
  induction bytes generalizing st pos with
  | nil => rfl
  | cons c rest ih =>
    obtain ⟨level, tag, closing, quote⟩ := st
    unfold skipNodeLoop skipStretch skipChar
    cases quote with
    | some q => exact ih _ _
    | none =>
      dsimp only
      split_ifs
      · exact ih _ _
      · exact ih _ _
      · exact ih _ _
      · cases tag with
        | false => exact ih _ _
        | true =>
          cases closing with
          | none => exact ih _ _
          | some closing =>
            dsimp only
            split
            · rfl
            · exact ih _ _
      · exact ih _ _
      · exact ih _ _

theorem text_start : SkipState.text {} pos = {} := rfl

/-- **The scan of a contiguous text**, in terms of the text. -/
theorem skipNodeLoop_text (w : Bytes) : skipNodeLoop {} 0 w = TextScan.skip {} w := by
  rw [skipNodeLoop_stretch]
  have hcase : StretchCase {} 0 w := skipStretch_case w {} 0 fun _ hc => nomatch hc
  cases hcase with
  | ends n hend hskip =>
    rw [hend, Nat.zero_add]
    exact hskip.symm
  | goes st' hgo hlevels hstate hclosing =>
    rw [hgo]
    exact (TextScan.skip_eq_none_iff.mpr hlevels).symm

end Code

/-! ## The wrapped scan and the linear one -/

/-- Data that goes round the end of the buffer, with bytes before the end and behind it. -/
structure NetworkBuffer.Wrapped (buffer : NetworkBuffer) : Prop where
  before : buffer.data < buffer.size
  behind : 0 < buffer.stop
  reversed : buffer.stop < buffer.data

/-- The bytes before the end of the buffer. -/
def NetworkBuffer.tail (buffer : NetworkBuffer) : Bytes := buffer.mem.drop buffer.data

/-- The bytes at its beginning. -/
def NetworkBuffer.head (buffer : NetworkBuffer) : Bytes := buffer.mem.take buffer.stop

/-- The pointer that is `n` characters further on, around the end. -/
def NetworkBuffer.advance (buffer : NetworkBuffer) (n : Nat) : Nat :=
  if buffer.data + n ≤ buffer.size then buffer.data + n else buffer.data + n - buffer.size

/--
`xmlfsm_skip_node(&network_data, &network_buffer)`: the verdict, and where `network_data.data` is
after it. On failure it is back at the start.
-/
def skipNodeRing (buffer : NetworkBuffer) : Option (Bool × Nat) :=
  (xmlfsmSkipNodeRing buffer).map (fun found =>
    match found with
    | none => (false, buffer.data)
    | some skipped => (true, skipped.data))

/-- The verdict for a node of `n` bytes in a ring buffer, or for none. -/
def NetworkBuffer.verdict (buffer : NetworkBuffer) : Option Nat → Bool × Nat
  | none => (false, buffer.data)
  | some n => (true, buffer.advance n)

/-- The verdict on the same bytes in one piece. -/
def skipNodeLinear (buffer : NetworkBuffer) : Bool × Nat :=
  buffer.verdict (skipNodeLoop {} 0 buffer.content)

section Wrapped

variable {buffer : NetworkBuffer}

theorem NetworkBuffer.Wrapped.content_eq (hw : buffer.Wrapped) :
    buffer.content = buffer.tail ++ buffer.head :=
  if_neg (Nat.not_le.mpr hw.reversed)

theorem NetworkBuffer.length_tail (buffer : NetworkBuffer) :
    buffer.tail.length = buffer.size - buffer.data :=
  List.length_drop

theorem NetworkBuffer.Wrapped.length_head (hw : buffer.Wrapped) :
    buffer.head.length = buffer.stop := by
  have hbefore : buffer.data < buffer.mem.length := hw.before
  have hreversed := hw.reversed
  unfold NetworkBuffer.head
  rw [List.length_take]
  omega

/-- No two nodes of the wrapped text have the same end. -/
theorem NetworkBuffer.Wrapped.verdict_inj (hw : buffer.Wrapped) {o o' : Option Nat}
    (ho : ∀ n ∈ o, n ≤ buffer.content.length) (ho' : ∀ n ∈ o', n ≤ buffer.content.length)
    (h : buffer.verdict o = buffer.verdict o') : o = o' := by
  have hbefore := hw.before
  have hreversed := hw.reversed
  have hlen : buffer.content.length = buffer.size - buffer.data + buffer.stop := by
    rw [hw.content_eq, List.length_append, buffer.length_tail, hw.length_head]
  cases o with
  | none =>
    cases o' with
    | none => rfl
    | some n' => cases h
  | some n =>
    cases o' with
    | none => cases h
    | some n' =>
      have hn := ho n rfl
      have hn' := ho' n' rfl
      have hadvance : buffer.advance n = buffer.advance n' := congrArg Prod.snd h
      unfold NetworkBuffer.advance at hadvance
      refine congrArg some ?_
      split at hadvance <;> split at hadvance <;> omega

/-- What the scan of the ring buffer finds, in terms of the two pieces. -/
def wrappedSkip (u v : Bytes) : Option Nat :=
  if 0 ∈ TextScan.levels {} u then TextScan.skip {} u
  else ((TextScan.after {} u).passed.skip v).map (· + u.length)

theorem wrappedSkip_le {u v : Bytes} {n : Nat} (h : wrappedSkip u v = some n) :
    n ≤ (u ++ v).length := by
  rw [List.length_append]
  unfold wrappedSkip at h
  split at h
  · have := TextScan.skip_le h
    omega
  · obtain ⟨m, hm, rfl⟩ := Option.map_eq_some_iff.mp h
    have := TextScan.skip_le hm
    omega

/-- **The scan of a ring buffer forgets the last character at the border.** -/
theorem skipNodeRing_eq (hw : buffer.Wrapped) :
    skipNodeRing buffer = some (buffer.verdict (wrappedSkip buffer.tail buffer.head)) := by
  have hbefore := hw.before
  have hreversed := hw.reversed
  have hsize := buffer.length_tail
  have hhead := hw.length_head
  unfold skipNodeRing xmlfsmSkipNodeRing wrappedSkip
  rw [if_neg (Nat.not_le.mpr hreversed)]
  have htail : StretchCase {} buffer.data buffer.tail :=
    skipStretch_case _ _ _ fun _ hc => nomatch hc
  cases htail with
  | ends n hend hskip =>
    have hzero : 0 ∈ TextScan.levels {} buffer.tail := by
      by_contra hno
      rw [text_start, TextScan.skip_eq_none_iff.mpr hno] at hskip
      cases hskip
    have hn := TextScan.skip_le hskip
    rw [text_start] at hskip
    unfold NetworkBuffer.tail at hend
    rw [hend, if_pos hzero, hskip]
    have hadvance : buffer.advance n = buffer.data + n := if_pos (by omega)
    exact congrArg some (congrArg (Prod.mk true) hadvance.symm)
  | goes st hgo hlevels hstate hclosing =>
    rw [text_start] at hlevels hstate
    unfold NetworkBuffer.tail at hgo
    rw [hgo, if_neg hlevels]
    dsimp only
    rw [if_neg (Nat.ne_of_gt hw.behind)]
    -- the last slash, if any, lies behind all that is still to be scanned
    have hfar : ∀ closing ∈ st.tagClosingPos, buffer.stop ≤ closing := by
      intro closing hc
      rcases hclosing closing hc with hin | hc
      · omega
      · cases hc
    have hpassed : st.text 0 = (TextScan.after {} buffer.tail).passed := by
      rw [← hstate]
      unfold SkipState.text TextScan.passed
      cases hc : st.tagClosingPos with
      | none => rfl
      | some closing => simp
    have hrest : StretchCase st 0 buffer.head := skipStretch_case _ _ _ fun closing hc => by
      have := hfar closing hc
      omega
    cases hrest with
    | ends n hend hskip =>
      have hpos := TextScan.skip_pos hskip
      have hn := TextScan.skip_le hskip
      rw [hpassed] at hskip
      unfold NetworkBuffer.head at hend
      rw [hend, hskip]
      have hadvance : buffer.advance (n + buffer.tail.length) = n := by
        unfold NetworkBuffer.advance
        rw [if_neg (by omega)]
        omega
      rw [Nat.zero_add]
      exact congrArg some (congrArg (Prod.mk true) hadvance.symm)
    | goes st' hgo' hlevels' hstate' hclosing' =>
      rw [hpassed] at hlevels'
      unfold NetworkBuffer.head at hgo'
      rw [hgo', TextScan.skip_eq_none_iff.mpr hlevels']
      rfl

/-- The border splits an empty node that the scan sees the last of, or that of its parent. -/
def SplitsNode (u v : Bytes) : Prop :=
  0 ∉ TextScan.levels {} u ∧ TextScan.SplitTag (TextScan.after {} u) v ∧
    ∃ l ∈ TextScan.levels (TextScan.after {} u) v, l = 0 ∨ l = 1

/--
**The wrapped scan ends as the linear one if and only if the border does not split a node**, for
every text and every way it goes round the end of the buffer.
-/
theorem scans_as_linear_iff (hw : buffer.Wrapped) :
    skipNodeRing buffer = some (skipNodeLinear buffer) ↔
      ¬ SplitsNode buffer.tail buffer.head := by
  have hlinear : skipNodeLinear buffer
      = buffer.verdict (TextScan.skip {} (buffer.tail ++ buffer.head)) := by
    unfold skipNodeLinear
    rw [skipNodeLoop_text, hw.content_eq]
  have hverdict : skipNodeRing buffer = some (skipNodeLinear buffer) ↔
      TextScan.skip {} (buffer.tail ++ buffer.head) = wrappedSkip buffer.tail buffer.head := by
    rw [skipNodeRing_eq hw, hlinear, Option.some.injEq]
    refine ⟨fun h => (hw.verdict_inj (fun n hn => ?_) (fun n hn => ?_) h).symm, fun h => by rw [h]⟩
    · rw [hw.content_eq]
      exact wrappedSkip_le hn
    · rw [hw.content_eq]
      exact TextScan.skip_le hn
  rw [hverdict, TextScan.skip_append]
  unfold wrappedSkip SplitsNode
  by_cases hzero : 0 ∈ TextScan.levels {} buffer.tail
  · rw [if_pos hzero, if_pos hzero]
    exact iff_of_true rfl fun h => h.1 hzero
  · have hinj : Function.Injective (fun n : Nat => n + buffer.tail.length) :=
      fun a b h => Nat.add_right_cancel h
    rw [if_neg hzero, if_neg hzero, (Option.map_injective hinj).eq_iff,
      TextScan.skip_passed_eq_iff]
    constructor
    · rintro h ⟨-, hsplit, l, hl, hlevel⟩
      have hne := h hsplit l hl
      omega
    · intro h hsplit l hl
      constructor
      · exact fun he => h ⟨hzero, hsplit, l, hl, .inl he⟩
      · exact fun he => h ⟨hzero, hsplit, l, hl, .inr he⟩

end Wrapped

/-! ## Nodes around the border -/

/-- Two bytes `/>` around the border. -/
def brokenTagBuffer : NetworkBuffer where
  mem := lit ">.<a/"
  data := 2
  stop := 1

/-- The empty node is not found, though the same bytes in one piece are a node. -/
theorem split_empty_node : brokenTagBuffer.Wrapped ∧ brokenTagBuffer.content = lit "<a/>" ∧
    skipNodeRing brokenTagBuffer = some (false, 2) ∧ skipNodeLinear brokenTagBuffer = (true, 1) ∧
    skipNodeRing brokenTagBuffer ≠ some (skipNodeLinear brokenTagBuffer) := by
  refine ⟨by constructor <;> decide, by decide, by decide, by decide, by decide⟩

/-- A node that goes round the end of the buffer after its name. -/
def namedBuffer : NetworkBuffer where
  mem := lit "/>.<a"
  data := 3
  stop := 2

/-- The result for an empty node that is not split between its last two characters. -/
theorem scans_as_linear_iff_named :
    skipNodeRing namedBuffer = some (skipNodeLinear namedBuffer) ∧
      skipNodeLinear namedBuffer = (true, 2) := by
  refine ⟨(scans_as_linear_iff (by constructor <;> decide)).mpr ?_, by decide⟩
  rintro ⟨-, hsplit, -⟩
  exact absurd hsplit (by decide)

end Mukite
