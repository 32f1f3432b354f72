import Mukite.Properties.Siblings
import Mukite.Properties.WrappedScan
import Mukite.Properties.XmlText

/-!
# The end of an element

`xmlfsm_skip_node` does not tell character data from markup: a quote character in character data
opens a quoted stretch too, and what stands in such a stretch is not looked at. A tag is seen if
no stretch is open where it begins (`quoteAfter`), and since no `<` stands inside of a tag, what is
seen of a tag is the whole of it.

* `scan_tokens`: what the scan makes of a sequence of tokens.
* `framing_iff`: an element is found to end where it ends if and only if the tags that are seen
  balance there for the first time. They do when the quote characters of each run of character
  data pair up.
-/

namespace Mukite

/-! ## Quoted stretches -/

/-- The quote character of the stretch that is open after a text. -/
def quoteAfter : Option UInt8 → Bytes → Option UInt8
  | q, [] => q
  | none, c :: rest => quoteAfter (if c == quote2 || c == quote1 then some c else none) rest
  | some q, c :: rest => quoteAfter (if c == q then none else some q) rest

theorem quoteAfter_append (q : Option UInt8) (u v : Bytes) :
    quoteAfter q (u ++ v) = quoteAfter (quoteAfter q u) v := by
  induction u generalizing q with
  | nil => cases q <;> rfl
  | cons c rest ih => cases q <;> exact ih _

/-- What is open is one of the two quote characters. -/
def Quoting (q : Option UInt8) : Prop := ∀ c ∈ q, c = quote1 ∨ c = quote2

theorem quoting_none : Quoting none := fun _ h => nomatch h

theorem Quoting.after {q : Option UInt8} (h : Quoting q) (w : Bytes) : Quoting (quoteAfter q w) := by
  induction w generalizing q with
  | nil => cases q <;> exact h
  | cons c rest ih =>
    cases q with
    | none =>
      refine ih ?_
      intro d hd
      split at hd
      · next hc =>
        obtain rfl := Option.some.inj hd
        rcases (Bool.or_eq_true _ _).mp hc with hc | hc
        · exact .inr (eq_of_beq hc)
        · exact .inl (eq_of_beq hc)
      · cases hd
    | some q =>
      refine ih ?_
      split
      · exact quoting_none
      · exact h

/-- A text without quote characters opens no stretch. -/
theorem quoteAfter_plain {w : Bytes} (h : ∀ c ∈ w, c ≠ quote2 ∧ c ≠ quote1) :
    quoteAfter none w = none := by
  induction w with
  | nil => rfl
  | cons c rest ih =>
    obtain ⟨h2, h1⟩ := h c List.mem_cons_self
    rw [quoteAfter, beq_eq_false_iff_ne.mpr h2, beq_eq_false_iff_ne.mpr h1]
    exact ih fun c hc => h c (List.mem_cons_of_mem _ hc)

/-! ## The scan of a piece -/

namespace TextScan

variable {t t' t'' : TextScan} {u v w : Bytes} {L : Int} {q : Option UInt8}

/-- A piece in which no tag with a `/` ends takes the scan from one state to another. -/
def Passes (t t' : TextScan) (w : Bytes) : Prop := t.levels w = [] ∧ t.after w = t'

theorem levels_append (t : TextScan) (u v : Bytes) :
    t.levels (u ++ v) = t.levels u ++ (t.after u).levels v := by
  induction u generalizing t with
  | nil => rfl
  | cons c rest ih => simp [levels, after, ih]

theorem after_append (t : TextScan) (u v : Bytes) : t.after (u ++ v) = (t.after u).after v := by
  induction u generalizing t with
  | nil => rfl
  | cons c rest ih => exact ih _

theorem Passes.append (h : Passes t t' u) (h' : Passes t' t'' v) : Passes t t'' (u ++ v) := by
  obtain ⟨hl, rfl⟩ := h
  obtain ⟨hl', rfl⟩ := h'
  refine ⟨?_, after_append t u v⟩
  rw [levels_append, hl, hl']
  rfl

theorem passes_nil (t : TextScan) : Passes t t [] := ⟨rfl, rfl⟩

theorem Passes.cons {c : UInt8} (h : t.next c = (t', none)) (h' : Passes t' t'' w) :
    Passes t t'' (c :: w) := by
  obtain ⟨hl, ha⟩ := h'
  exact ⟨by rw [levels, h, hl]; rfl, by rw [after, h, ha]⟩

/-- The state between two tokens. -/
def between (L : Int) (q : Option UInt8) : TextScan := { level := L, quote := q }

/-- The state in a tag in which no `/` has been seen. -/
def inTag (L : Int) : TextScan := { level := L, tag := true }

/-- **Outside of a tag only the quote characters count, as long as no `<` comes.** -/
theorem passes_between (h : ch '<' ∉ w) : Passes (between L q) (between L (quoteAfter q w)) w := by
  induction w generalizing q with
  | nil => cases q <;> exact passes_nil _
  | cons c rest ih =>
    rw [List.mem_cons, not_or] at h
    have hlt : (c == ch '<') = false := beq_eq_false_iff_ne.mpr (Ne.symm h.1)
    cases q with
    | none =>
      refine Passes.cons ?_ (ih h.2)
      cases hquote : c == quote2 || c == quote1 with
      | true =>
        rcases (Bool.or_eq_true _ _).mp hquote with hc | hc <;> obtain rfl := eq_of_beq hc <;> rfl
      | false =>
        unfold next between passed
        simp only [hlt, hquote, Bool.false_eq_true, if_false]
        split_ifs <;> rfl
    | some q =>
      refine Passes.cons ?_ (ih h.2)
      unfold next between passed
      dsimp only
      split <;> rfl

/-- A tag that begins in a stretch is passed like character data. -/
theorem passes_unseen {q : UInt8} (hq : q = quote1 ∨ q = quote2) (h : ch '<' ∉ w) :
    Passes (between L (some q)) (between L (quoteAfter (some q) (ch '<' :: w))) (ch '<' :: w) := by
  have hne : (ch '<' == q) = false := by
    rcases hq with rfl | rfl <;> decide
  have hnext : (between L (some q)).next (ch '<') = (between L (some q), none) := by
    unfold next between passed
    dsimp only
    rw [hne]
    rfl
  rw [quoteAfter, hne]
  exact Passes.cons hnext (passes_between h)

/-- The open quote is that of the text alone. -/
theorem quote_after (t : TextScan) (w : Bytes) : (t.after w).quote = quoteAfter t.quote w := by
  induction w generalizing t with
  | nil => cases hq : t.quote <;> exact hq
  | cons c rest ih =>
    rw [after, ih]
    obtain ⟨level, tag, slash, quote⟩ := t
    cases quote with
    | none =>
      rw [quoteAfter]
      congr 1
      cases hquote : c == quote2 || c == quote1 with
      | true =>
        rcases (Bool.or_eq_true _ _).mp hquote with hc | hc <;> obtain rfl := eq_of_beq hc <;> rfl
      | false =>
        unfold next passed
        simp only [hquote, Bool.false_eq_true, if_false]
        split_ifs
        · rfl
        · rfl
        · rfl
        · cases tag <;> cases slash <;> rfl
        · rfl
    | some q =>
      rw [quoteAfter]
      congr 1
      unfold next passed
      dsimp only
      split <;> rfl

/-! ### Tags that are seen -/

/-- A character that means nothing in a tag. -/
def Plain (c : UInt8) : Prop := c ≠ ch '<' ∧ c ≠ ch '/' ∧ c ≠ ch '>' ∧ c ≠ quote2 ∧ c ≠ quote1

theorem plain_of_white {c : UInt8} (h : whitespace c = true) : Plain c := by
  refine ⟨?_, ?_, ?_, ?_, ?_⟩ <;> rintro rfl <;> revert h <;> decide

theorem plain_of_nameChar {c : UInt8} (h : nameChar c = true) : Plain c := by
  refine ⟨?_, ?_, ?_, ?_, ?_⟩ <;> rintro rfl <;> revert h <;> decide

theorem plain_of_name {name : Bytes} (h : name.all nameChar = true) : ∀ c ∈ name, Plain c :=
  fun c hc => plain_of_nameChar (List.all_eq_true.mp h c hc)

theorem next_plain {c : UInt8} (h : Plain c) (hq : t.quote = none) : t.next c = (t.passed, none) := by
  obtain ⟨hlt, hslash, hgt, h2, h1⟩ := h
  unfold next
  rw [hq]
  simp [hlt, hslash, hgt, h2, h1]

/-- Plain characters only move away from the last `/`. -/
theorem passes_plain (h : ∀ c ∈ w, Plain c) (hq : t.quote = none) (hs : t.passed = t) :
    Passes t t w := by
  induction w with
  | nil => exact passes_nil t
  | cons c rest ih =>
    refine Passes.cons ?_ (ih fun c hc => h c (List.mem_cons_of_mem _ hc))
    rw [next_plain (h c List.mem_cons_self) hq, hs]

/-- A value is passed in its quotes. -/
theorem passes_value {q : UInt8} (h : q ∉ w) : Passes { inTag L with quote := some q }
    { inTag L with quote := some q } w := by
  induction w with
  | nil => exact passes_nil _
  | cons c rest ih =>
    rw [List.mem_cons, not_or] at h
    refine Passes.cons ?_ (ih h.2)
    have hne : (c == q) = false := beq_eq_false_iff_ne.mpr (Ne.symm h.1)
    unfold next inTag passed
    simp [hne]

theorem passes_attr {a : AttrText} (h : a.Printed) :
    Passes (inTag L) (inTag L) a.text := by
  obtain ⟨s, s', hwhite, hgap⟩ := h.gap
  have hopen : (inTag L).next a.quote = ({ inTag L with quote := some a.quote }, none) := by
    rcases h.quote with hq | hq <;> rw [hq] <;> rfl
  have hclose : ({ inTag L with quote := some a.quote } : TextScan).next a.quote
      = (inTag L, none) := by
    unfold next inTag passed
    simp
  have hplain : ∀ c ∈ a.lead ++ (a.name ++ a.gap), Plain c := by
    intro c hc
    rw [hgap] at hc
    simp only [List.mem_append, List.mem_cons] at hc
    rcases hc with hc | hc | hc | rfl | hc
    · exact plain_of_white (h.lead.2 c hc)
    · exact plain_of_name h.name.2 c hc
    · exact plain_of_white (hwhite c (List.mem_append_left _ hc))
    · exact ⟨by decide, by decide, by decide, by decide, by decide⟩
    · exact plain_of_white (hwhite c (List.mem_append_right _ hc))
  have hend : Passes { inTag L with quote := some a.quote } (inTag L) [a.quote] :=
    Passes.cons hclose (passes_nil _)
  have htext : a.text = (a.lead ++ (a.name ++ a.gap)) ++ (a.quote :: (a.value ++ [a.quote])) := by
    simp [AttrText.text, AttrText.rest]
  rw [htext]
  exact (passes_plain hplain rfl rfl).append (Passes.cons hopen
    ((passes_value h.value).append hend))

/-- The name, the attributes and the white space of a tag. -/
theorem passes_tag {tag : XmlTag} (h : tag.Printed) : Passes (inTag L) (inTag L) tag.text := by
  have hattrs : ∀ attrs : List AttrText, (∀ a ∈ attrs, a.Printed) →
      Passes (inTag L) (inTag L) (attrsText attrs) := by
    intro attrs hall
    induction attrs with
    | nil => exact passes_nil _
    | cons a rest ih =>
      rw [attrsText_cons]
      exact (passes_attr (hall a List.mem_cons_self)).append
        (ih fun b hb => hall b (List.mem_cons_of_mem _ hb))
  refine (passes_plain (plain_of_name h.name.2) rfl rfl).append ((hattrs _ h.attrs).append ?_)
  exact passes_plain (fun c hc => plain_of_white (h.space c hc)) rfl rfl

theorem next_start (L : Int) : (between L none).next (ch '<') = (inTag (L + 1), none) := rfl

/-- A start tag that is seen. -/
theorem passes_start {tag : XmlTag} (h : tag.Printed) :
    Passes (between L none) (between (L + 1) none) (XmlToken.start tag).text := by
  have hgt : (inTag (L + 1)).next (ch '>') = (between (L + 1) none, none) := rfl
  exact Passes.cons (next_start L) ((passes_tag h).append (Passes.cons hgt (passes_nil _)))

/-- A piece with whose last character, and with no other, a tag with a `/` ends. -/
def Closes (t t' : TextScan) (l : Int) (w : Bytes) : Prop :=
  ∃ u t₁, w = u ++ [ch '>'] ∧ Passes t t₁ u ∧ t₁.next (ch '>') = (t', some l)

theorem Closes.scan {l : Int} (h : Closes t t' l w) : t.levels w = [l] ∧ t.after w = t' := by
  obtain ⟨u, t₁, rfl, ⟨hl, rfl⟩, hgt⟩ := h
  rw [levels_append, after_append, hl]
  simp [levels, after, hgt]

theorem Closes.skip (h : Closes t t' 0 w) : t.skip w = some w.length := by
  obtain ⟨u, t₁, rfl, ⟨hl, rfl⟩, hgt⟩ := h
  rw [skip_append, hl, if_neg List.not_mem_nil, TextScan.skip, if_pos (congrArg Prod.snd hgt),
    List.length_append]
  exact congrArg some (Nat.add_comm _ _)

/-- An element without content that is seen. -/
theorem closes_empty {tag : XmlTag} (h : tag.Printed) :
    Closes (between L none) (between L none) L (XmlToken.empty tag).text := by
  have hslash : (inTag (L + 1)).next (ch '/')
      = ({ inTag (L + 1) with slash := some true }, none) := rfl
  have hgt : ({ inTag (L + 1) with slash := some true } : TextScan).next (ch '>')
      = (between L none, some L) := by
    have hlevel : L + 1 - 1 = L := by omega
    have hnext : ({ inTag (L + 1) with slash := some true } : TextScan).next (ch '>')
      = (between (L + 1 - 1) none, some (L + 1 - 1)) := rfl
    rw [hnext, hlevel]
  refine ⟨ch '<' :: (tag.text ++ [ch '/']), _, ?_, ?_, hgt⟩
  · simp [XmlToken.text, lit]
  · exact Passes.cons (next_start L) ((passes_tag h).append (Passes.cons hslash (passes_nil _)))

/-- An end tag that is seen. -/
theorem closes_stop {name space : Bytes} (hname : name ≠ [] ∧ name.all nameChar = true)
    (hspace : ∀ c ∈ space, whitespace c = true) :
    Closes (between L none) (between (L - 1) none) (L - 1) (XmlToken.stop name space).text := by
  obtain ⟨hne, hall⟩ := hname
  obtain ⟨c, rest, rfl⟩ := List.exists_cons_of_ne_nil hne
  have hplain := plain_of_name hall
  have hslash : (inTag (L + 1)).next (ch '/')
      = ({ inTag (L + 1) with slash := some true }, none) := rfl
  -- the name puts the `/` away from the end of the tag
  have hfirst : ({ inTag (L + 1) with slash := some true } : TextScan).next c
      = ({ inTag (L + 1) with slash := some false }, none) :=
    next_plain (hplain c List.mem_cons_self) rfl
  have hrest : ∀ d ∈ rest ++ space, Plain d := by
    intro d hd
    rcases List.mem_append.mp hd with hd | hd
    · exact hplain d (List.mem_cons_of_mem _ hd)
    · exact plain_of_white (hspace d hd)
  have hgt : ({ inTag (L + 1) with slash := some false } : TextScan).next (ch '>')
      = (between (L - 1) none, some (L - 1)) := by
    have hlevel : L + 1 - 2 = L - 1 := by omega
    have hnext : ({ inTag (L + 1) with slash := some false } : TextScan).next (ch '>')
      = (between (L + 1 - 2) none, some (L + 1 - 2)) := rfl
    rw [hnext, hlevel]
  refine ⟨ch '<' :: ch '/' :: c :: (rest ++ space), _, ?_, ?_, hgt⟩
  · simp [XmlToken.text, lit]
  · exact Passes.cons (next_start L) (Passes.cons hslash (Passes.cons hfirst
      (passes_plain hrest rfl rfl)))

end TextScan

/-- **The scanner takes what is printed for an attribute.** -/
theorem AttrText.Printed.scannable {a : AttrText} (h : a.Printed) : a.Scannable where
  lead := h.lead.2
  start := by
    intro c hc
    obtain ⟨x, xs, hname⟩ := List.exists_cons_of_ne_nil h.name.1
    rw [hname] at hc
    cases hc
    obtain ⟨hwhite, hmark⟩ := not_mem_of_nameChar
      (List.all_eq_true.mp h.name.2 c (by rw [hname]; exact List.mem_cons_self))
    exact ⟨hwhite, fun he => hmark (he ▸ by decide), fun he => hmark (he ▸ by decide)⟩
  name := by
    intro c hc
    obtain ⟨hwhite, hmark⟩ := not_mem_of_nameChar (List.all_eq_true.mp h.name.2 c hc)
    have heq : c ≠ ch '=' := fun he => hmark (he ▸ by decide)
    simp [hwhite, heq]
  gapStart := by
    obtain ⟨s, s', hwhite, hgap⟩ := h.gap
    rw [hgap]
    cases s with
    | nil => exact ⟨ch '=', rfl, by decide⟩
    | cons c rest =>
      refine ⟨c, rfl, ?_⟩
      rw [hwhite c (by simp)]
      rfl
  gap := by
    obtain ⟨s, s', hwhite, hgap⟩ := h.gap
    intro c hc
    rw [hgap] at hc
    have hcases : whitespace c = true ∨ c = ch '=' := by
      rcases List.mem_append.mp hc with hc | hc
      · exact .inl (hwhite c (List.mem_append_left _ hc))
      · rcases List.mem_cons.mp hc with hc | hc
        · exact .inr hc
        · exact .inl (hwhite c (List.mem_append_right _ hc))
    rcases hcases with hc | rfl
    · obtain ⟨-, -, -, h2, h1⟩ := TextScan.plain_of_white hc
      simp [h1, h2]
    · decide
  quote := by rcases h.quote with hq | hq <;> rw [hq] <;> decide
  value := by
    intro c hc
    rw [bne_iff_ne]
    rintro rfl
    exact h.value hc

/-! ## Tokens -/

namespace XmlToken

/-- How deep a tag leads. -/
def step : XmlToken → Int
  | chars _ => 0
  | start _ => 1
  | stop _ _ => -1
  | empty _ => 0

/-- Whether an element ends with a token. -/
def ends : XmlToken → Bool
  | chars _ => false
  | start _ => false
  | stop _ _ => true
  | empty _ => true

end XmlToken

/-- The depth after a sequence of tokens, counting the tags that are seen. -/
def seenDepth : Option UInt8 → Int → List XmlToken → Int
  | _, depth, [] => depth
  | q, depth, token :: rest =>
    seenDepth (quoteAfter q token.text) (if q = none then depth + token.step else depth) rest

/-- The depths after the tags that are seen and end an element. -/
def seenDepths : Option UInt8 → Int → List XmlToken → List Int
  | _, _, [] => []
  | q, depth, token :: rest =>
    (if q = none ∧ token.ends = true then [depth + token.step] else []) ++
      seenDepths (quoteAfter q token.text) (if q = none then depth + token.step else depth) rest

section Tokens

variable {token : XmlToken} {tokens more : List XmlToken} {q : Option UInt8} {L : Int}

theorem not_mem_tag {tag : XmlTag} (h : tag.WellFormed) : ch '<' ∉ tag.text := by
  have hplain : ∀ c : UInt8, TextScan.Plain c → c ≠ ch '<' := fun c hc => hc.1
  have hattr : ∀ a ∈ tag.attrs, ch '<' ∉ a.text := by
    intro a ha hm
    have hin := h.attrs a ha
    obtain ⟨s, s', hwhite, hgap⟩ := hin.gap
    unfold AttrText.text AttrText.rest at hm
    rw [hgap] at hm
    simp only [List.mem_append, List.mem_cons, List.not_mem_nil, or_false] at hm
    have hquote : ch '<' ≠ a.quote := by
      rcases hin.quote with hq | hq <;> rw [hq] <;> decide
    rcases hm with hm | hm | (hm | hm | hm) | hm | hm | hm
    · exact hplain _ (TextScan.plain_of_white (hin.lead.2 _ hm)) rfl
    · exact hplain _ (TextScan.plain_of_name hin.name.2 _ hm) rfl
    · exact hplain _ (TextScan.plain_of_white (hwhite _ (List.mem_append_left _ hm))) rfl
    · exact absurd hm (by decide)
    · exact hplain _ (TextScan.plain_of_white (hwhite _ (List.mem_append_right _ hm))) rfl
    · exact hquote hm
    · exact hin.value.2 hm
    · exact hquote hm
  intro hm
  unfold XmlTag.text at hm
  rcases List.mem_append.mp hm with hm | hm
  · exact hplain _ (TextScan.plain_of_name h.name.2 _ hm) rfl
  rcases List.mem_append.mp hm with hm | hm
  · obtain ⟨t, ht, hm⟩ := List.mem_flatten.mp hm
    obtain ⟨a, ha, rfl⟩ := List.mem_map.mp ht
    exact hattr a ha hm
  · exact hplain _ (TextScan.plain_of_white (h.space _ hm)) rfl

/-- An element ends with the last character of the token that ends it. -/
theorem closes_token (h : token.WellFormed) (hends : token.ends = true) :
    TextScan.Closes (TextScan.between L none) (TextScan.between (L + token.step) none)
      (L + token.step) token.text := by
  cases token with
  | chars run => cases hends
  | start tag => cases hends
  | stop name space => exact TextScan.closes_stop h.1 h.2
  | empty tag =>
    rw [XmlToken.step, Int.add_zero]
    exact TextScan.closes_empty (XmlTag.WellFormed.printed h)

/-- **What is seen of a token is the whole of it, or nothing.** -/
theorem scan_token (h : token.WellFormed) (hq : Quoting q) :
    (TextScan.between L q).levels token.text
        = (if q = none ∧ token.ends = true then [L + token.step] else []) ∧
      (TextScan.between L q).after token.text
        = TextScan.between (if q = none then L + token.step else L) (quoteAfter q token.text) := by
  cases q with
  | none =>
    rw [if_pos rfl]
    -- a tag leaves no stretch open
    have hseen : ∀ {L' : Int}, (TextScan.between L none).after token.text = TextScan.between L' none →
        TextScan.between L' none = TextScan.between L' (quoteAfter none token.text) := by
      intro L' hafter
      have hquote := TextScan.quote_after (TextScan.between L none) token.text
      rw [hafter] at hquote
      exact congrArg (TextScan.between L') hquote
    cases token with
    | chars run =>
      obtain ⟨hl, ha⟩ := TextScan.passes_between (L := L) (q := none) h
      rw [XmlToken.step, Int.add_zero]
      exact ⟨hl, ha⟩
    | start tag =>
      obtain ⟨hl, ha⟩ := TextScan.passes_start (L := L) (XmlTag.WellFormed.printed h)
      exact ⟨hl, ha.trans (hseen ha)⟩
    | stop name space =>
      obtain ⟨hl, ha⟩ := (closes_token (L := L) h rfl).scan
      exact ⟨hl, ha.trans (hseen ha)⟩
    | empty tag =>
      obtain ⟨hl, ha⟩ := (closes_token (L := L) h rfl).scan
      exact ⟨hl, ha.trans (hseen ha)⟩
  | some q =>
    have hunseen : ∀ w, token.text = ch '<' :: w → ch '<' ∉ w →
        (TextScan.between L (some q)).levels token.text = [] ∧
          (TextScan.between L (some q)).after token.text
            = TextScan.between L (quoteAfter (some q) token.text) := by
      intro w hw hno
      rw [hw]
      exact TextScan.passes_unseen (hq q rfl) hno
    simp only [reduceCtorEq, false_and, if_false]
    cases token with
    | chars run => exact TextScan.passes_between h
    | start tag =>
      refine hunseen _ rfl fun hm => ?_
      rcases List.mem_append.mp hm with hm | hm
      · exact not_mem_tag h hm
      · exact absurd hm (by decide)
    | stop name space =>
      refine hunseen _ rfl fun hm => ?_
      have hplain := TextScan.plain_of_name h.1.2
      simp only [List.mem_cons, List.mem_append] at hm
      rcases hm with hm | (hm | hm) | hm
      · exact absurd hm (by decide)
      · exact (hplain _ hm).1 rfl
      · exact (TextScan.plain_of_white (h.2 _ hm)).1 rfl
      · exact absurd hm (by decide)
    | empty tag =>
      refine hunseen _ rfl fun hm => ?_
      rcases List.mem_append.mp hm with hm | hm
      · exact not_mem_tag h hm
      · exact absurd hm (by decide)

/-- **What the scan makes of a sequence of tokens.** -/
theorem scan_tokens (h : ∀ token ∈ tokens, token.WellFormed) (hq : Quoting q) :
    (TextScan.between L q).levels (tokensText tokens) = seenDepths q L tokens ∧
      (TextScan.between L q).after (tokensText tokens)
        = TextScan.between (seenDepth q L tokens) (quoteAfter q (tokensText tokens)) := by
  induction tokens generalizing q L with
  | nil =>
    refine ⟨rfl, ?_⟩
    cases q <;> rfl
  | cons token rest ih =>
    obtain ⟨hl, ha⟩ := @scan_token token q L (h token List.mem_cons_self) hq
    obtain ⟨hlevels, hafter⟩ := @ih (quoteAfter q token.text)
      (if q = none then L + token.step else L) (fun t ht => h t (List.mem_cons_of_mem _ ht))
      (hq.after _)
    rw [tokensText_cons, TextScan.levels_append, TextScan.after_append, hl, ha, hlevels, hafter,
      quoteAfter_append]
    exact ⟨rfl, rfl⟩

theorem seenDepth_append : seenDepth q L (tokens ++ more) =
    seenDepth (quoteAfter q (tokensText tokens)) (seenDepth q L tokens) more := by
  induction tokens generalizing q L with
  | nil => cases q <;> rfl
  | cons token rest ih =>
    rw [List.cons_append, seenDepth, seenDepth, ih, tokensText_cons, quoteAfter_append]

theorem seenDepths_append : seenDepths q L (tokens ++ more) = seenDepths q L tokens ++
    seenDepths (quoteAfter q (tokensText tokens)) (seenDepth q L tokens) more := by
  induction tokens generalizing q L with
  | nil => cases q <;> rfl
  | cons token rest ih =>
    rw [List.cons_append, seenDepths, seenDepths, seenDepth, ih, tokensText_cons,
      quoteAfter_append, List.append_assoc]

end Tokens

/-! ## Elements -/

/-- **The tags that are seen balance at the end of the element**, and nowhere before. -/
structure SeenBalanced (element : XmlElement) : Prop where
  seen : quoteAfter none (tokensText element.front) = none
  before : 0 ∉ seenDepths none 0 element.front
  settled : seenDepth none 0 element.front + element.last.step = 0

theorem XmlElement.ends_last (element : XmlElement) : element.last.ends = true := by
  cases element <;> rfl

/-- An element is scanned as a whole node if and only if the tags that are seen balance at its
end. -/
theorem wholeNode_iff {element : XmlElement} (h : element.WellFormed) :
    WholeNode element.text ↔ SeenBalanced element := by
  have hfront : ∀ token ∈ element.front, token.WellFormed :=
    fun token hm => h token (List.mem_append_left _ hm)
  have hlast : element.last.WellFormed := h _ (List.mem_append_right _ (List.mem_singleton.mpr rfl))
  obtain ⟨hlevels, hafter⟩ := @scan_tokens element.front none 0 hfront quoting_none
  have hquoting : Quoting (quoteAfter none (tokensText element.front)) := quoting_none.after _
  obtain ⟨hends, -⟩ := @scan_token element.last _ (seenDepth none 0 element.front) hlast hquoting
  have htext : element.text = tokensText element.front ++ element.last.text := by
    simp [XmlElement.text]
  have hne : element.last.text.length ≠ 0 := by
    cases element <;> simp [XmlElement.last, XmlToken.text]
  have hinj : Function.Injective (· + (tokensText element.front).length) :=
    fun _ _ he => Nat.add_right_cancel he
  have hstart : ({} : TextScan) = TextScan.between 0 none := rfl
  unfold WholeNode
  rw [skipNodeLoop_text, htext, hstart, TextScan.skip_append, hlevels, hafter]
  split
  · next hzero =>
    refine iff_of_false (fun hskip => ?_) fun hb => hb.before hzero
    have := TextScan.skip_le hskip
    rw [List.length_append] at this
    omega
  · next hzero =>
    have hsum : some (tokensText element.front ++ element.last.text).length
        = (some element.last.text.length).map (· + (tokensText element.front).length) := by
      rw [List.length_append, Nat.add_comm]
      rfl
    rw [hsum, (Option.map_injective hinj).eq_iff]
    constructor
    · intro hskip
      have hmem : (0 : Int) ∈ (TextScan.between (seenDepth none 0 element.front)
          (quoteAfter none (tokensText element.front))).levels element.last.text := by
        by_contra hno
        rw [TextScan.skip_eq_none_iff.mpr hno] at hskip
        cases hskip
      rw [hends] at hmem
      split at hmem
      · next hseen => exact ⟨hseen.1, hzero, (List.mem_singleton.mp hmem).symm⟩
      · exact absurd hmem List.not_mem_nil
    · intro hb
      have hclose := closes_token (L := seenDepth none 0 element.front) hlast element.ends_last
      rw [hb.settled] at hclose
      rw [hb.seen]
      exact hclose.skip

/-! ## Quote characters that pair up -/

/-- Every stretch that is opened in a run of character data ends in the same run. -/
def RunsPaired (tokens : List XmlToken) : Prop :=
  ∀ run, XmlToken.chars run ∈ tokens → quoteAfter none run = none

theorem quoteAfter_token {token : XmlToken} (h : token.WellFormed)
    (hrun : ∀ run, token = .chars run → quoteAfter none run = none) :
    quoteAfter none token.text = none := by
  have hquote := TextScan.quote_after (TextScan.between 0 none) token.text
  cases token with
  | chars run => exact hrun run rfl
  | start tag =>
    rw [(TextScan.passes_start (L := 0) (XmlTag.WellFormed.printed h)).2] at hquote
    exact hquote.symm
  | stop name space =>
    rw [(closes_token (L := 0) h rfl).scan.2] at hquote
    exact hquote.symm
  | empty tag =>
    rw [(closes_token (L := 0) h rfl).scan.2] at hquote
    exact hquote.symm

theorem quoteAfter_tokens {tokens : List XmlToken} (h : ∀ token ∈ tokens, token.WellFormed)
    (hp : RunsPaired tokens) : quoteAfter none (tokensText tokens) = none := by
  induction tokens with
  | nil => rfl
  | cons token rest ih =>
    have hhead : quoteAfter none token.text = none :=
      quoteAfter_token (h token List.mem_cons_self)
        fun run he => hp run (he ▸ List.mem_cons_self)
    rw [tokensText_cons, quoteAfter_append, hhead]
    exact ih (fun t ht => h t (List.mem_cons_of_mem _ ht))
      fun run hr => hp run (List.mem_cons_of_mem _ hr)

/-- **A content with such runs is seen as it nests**: the depth after it is that before it, and
nothing in it comes below. -/
theorem seen_content {content : XmlContent} (h : content.WellFormed)
    (hp : RunsPaired content.tokens) (L : Int) :
    seenDepth none L content.tokens = L ∧ ∀ l ∈ seenDepths none L content.tokens, L ≤ l := by
  induction content generalizing L with
  | nil => exact ⟨rfl, fun l hl => absurd hl List.not_mem_nil⟩
  | chars run rest ih =>
    have hrun : quoteAfter none (XmlToken.chars run).text = none :=
      hp run List.mem_cons_self
    obtain ⟨hdepth, hdepths⟩ := ih (fun t ht => h t (List.mem_cons_of_mem _ ht))
      (fun r hr => hp r (List.mem_cons_of_mem _ hr)) L
    unfold XmlContent.tokens
    rw [seenDepth, seenDepths, hrun, if_pos rfl, XmlToken.step, Int.add_zero]
    exact ⟨hdepth, hdepths⟩
  | empty tag rest ih =>
    have htag : quoteAfter none (XmlToken.empty tag).text = none :=
      quoteAfter_token (h _ List.mem_cons_self) (fun _ he => by cases he)
    obtain ⟨hdepth, hdepths⟩ := ih (fun t ht => h t (List.mem_cons_of_mem _ ht))
      (fun r hr => hp r (List.mem_cons_of_mem _ hr)) L
    unfold XmlContent.tokens
    rw [seenDepth, seenDepths, htag, if_pos rfl, if_pos ⟨rfl, rfl⟩, XmlToken.step, Int.add_zero]
    refine ⟨hdepth, fun l hl => ?_⟩
    rcases List.mem_append.mp hl with hl | hl
    · exact Int.le_of_eq (List.mem_singleton.mp hl).symm
    · exact hdepths l hl
  | node tag inner space rest ih ihrest =>
    have hmem : ∀ token, token ∈ inner.tokens ∨ token = .stop tag.name space ∨ token ∈ rest.tokens →
        token ∈ (XmlContent.node tag inner space rest).tokens := by
      intro token ht
      unfold XmlContent.tokens
      simp only [List.mem_cons, List.mem_append]
      exact .inr ht
    have hstart : quoteAfter none (XmlToken.start tag).text = none :=
      quoteAfter_token (h _ List.mem_cons_self) (fun _ he => by cases he)
    have hstop : quoteAfter none (XmlToken.stop tag.name space).text = none :=
      quoteAfter_token (h _ (hmem _ (.inr (.inl rfl)))) (fun _ he => by cases he)
    have hinner : quoteAfter none (tokensText inner.tokens) = none :=
      quoteAfter_tokens (fun t ht => h t (hmem t (.inl ht))) fun r hr => hp r (hmem _ (.inl hr))
    obtain ⟨hdepth, hdepths⟩ := ih (fun t ht => h t (hmem t (.inl ht)))
      (fun r hr => hp r (hmem _ (.inl hr))) (L + 1)
    obtain ⟨hdepth', hdepths'⟩ := ihrest (fun t ht => h t (hmem t (.inr (.inr ht))))
      (fun r hr => hp r (hmem _ (.inr (.inr hr)))) L
    have hback : L + 1 + -1 = L := by omega
    unfold XmlContent.tokens
    rw [seenDepth, seenDepths, hstart, if_pos rfl, if_neg (fun hno => Bool.false_ne_true hno.2),
      seenDepth_append, seenDepths_append, hinner, XmlToken.step, hdepth, seenDepth, seenDepths,
      hstop, if_pos rfl, if_pos ⟨rfl, rfl⟩, XmlToken.step, hback]
    refine ⟨hdepth', fun l hl => ?_⟩
    simp only [List.nil_append, List.mem_append, List.mem_singleton] at hl
    rcases hl with hl | rfl | hl
    · have := hdepths l hl
      omega
    · exact Int.le_refl _
    · exact hdepths' l hl

theorem seenBalanced_of_paired {element : XmlElement} (h : element.WellFormed)
    (hp : RunsPaired element.front) : SeenBalanced element := by
  cases element with
  | empty tag => exact ⟨rfl, List.not_mem_nil, rfl⟩
  | node tag inner space =>
    have hstart : quoteAfter none (XmlToken.start tag).text = none :=
      quoteAfter_token (h _ List.mem_cons_self) (fun _ he => nomatch he)
    have hmem : ∀ token ∈ inner.tokens, token.WellFormed := fun token ht =>
      h token (List.mem_append_left _ (List.mem_cons_of_mem _ ht))
    have hruns : RunsPaired inner.tokens := fun run hr => hp run (List.mem_cons_of_mem _ hr)
    obtain ⟨hdepth, hdepths⟩ := @seen_content inner hmem hruns 1
    refine ⟨?_, ?_, ?_⟩
    · show quoteAfter none (tokensText (.start tag :: inner.tokens)) = none
      rw [tokensText_cons, quoteAfter_append, hstart]
      exact quoteAfter_tokens hmem hruns
    · show (0 : Int) ∉ seenDepths none 0 (.start tag :: inner.tokens)
      rw [seenDepths, hstart, if_pos rfl, if_neg (fun hno => nomatch hno.2)]
      intro hz
      have := hdepths 0 hz
      omega
    · show seenDepth none 0 (.start tag :: inner.tokens) + -1 = 0
      rw [seenDepth, hstart, if_pos rfl]
      show seenDepth none 1 inner.tokens + -1 = 0
      rw [hdepth]
      rfl

/-- `xmlfsm_skip_node` in the middle of a text. -/
theorem skipNode_text (before text : Bytes) : xmlfsmSkipNode (before ++ text)
    { data := before.length, stop := (before ++ text).length }
      = some ((skipNodeLoop {} 0 text).map (· + before.length)) := by
  have hbytes : Span.bytes (before ++ text)
      { data := before.length, stop := (before ++ text).length } = text := by
    simp [Span.bytes]
  have hle : before.length ≤ (before ++ text).length := by
    rw [List.length_append]
    exact Nat.le_add_right _ _
  unfold xmlfsmSkipNode
  rw [if_pos hle, hbytes, skipNodeLoop_from]

/-- A whole node is skipped, whatever stands around it. -/
theorem WholeNode.skipNode {node : Bytes} (h : WholeNode node) (before tail : Bytes) :
    xmlfsmSkipNode (before ++ (node ++ tail))
        { data := before.length, stop := (before ++ (node ++ tail)).length }
      = some (some (before.length + node.length)) := by
  rw [skipNode_text, h.append tail, Option.map_some, Nat.add_comm]

/--
**When an element is framed.** For every well-formed element, wherever it stands and whatever
follows it: `xmlfsm_skip_node` succeeds and ends behind it if and only if the tags that no quoted
stretch hides balance at its end for the first time. That is so if the quote characters in each
run of character data pair up.
-/
theorem framing_iff {element : XmlElement} (h : element.WellFormed) :
    ((∀ before tail : Bytes, xmlfsmSkipNode (before ++ (element.text ++ tail))
          { data := before.length, stop := (before ++ (element.text ++ tail)).length }
        = some (some (before.length + element.text.length))) ↔ SeenBalanced element) ∧
      (RunsPaired element.front → SeenBalanced element) := by
  refine ⟨?_, seenBalanced_of_paired h⟩
  rw [← wholeNode_iff h]
  refine ⟨fun hall => ?_, fun hw before tail => hw.skipNode before tail⟩
  have hone := hall [] []
  rw [skipNode_text, List.append_nil] at hone
  simpa [WholeNode] using hone

/-! ## An apostrophe -/

/-- `<a>it's</a>`. -/
def apostropheElement : XmlElement :=
  .node { name := lit "a", attrs := [], space := [] } (.chars (lit "it's") .nil) []

/-- An element with nothing but a name and a text. -/
theorem wellFormed_texted {name run : Bytes} (hname : name ≠ [] ∧ name.all nameChar = true)
    (hrun : ch '<' ∉ run) : (XmlElement.node { name := name, attrs := [], space := [] }
      (.chars run .nil) []).WellFormed := by
  intro token hm
  have hcases : token = .start { name := name, attrs := [], space := [] } ∨ token = .chars run ∨
      token = .stop name [] := by
    simpa [XmlElement.front, XmlElement.last, XmlContent.tokens] using hm
  rcases hcases with rfl | rfl | rfl
  · exact ⟨hname, fun _ ha => absurd ha List.not_mem_nil, fun _ hc => absurd hc List.not_mem_nil⟩
  · exact hrun
  · exact ⟨hname, fun _ hc => absurd hc List.not_mem_nil⟩

/-- The apostrophe opens a stretch that hides the end tag. -/
theorem apostrophe_not_framed : apostropheElement.WellFormed ∧
    apostropheElement.text = lit "<a>it's</a>" ∧
    xmlfsmSkipNode apostropheElement.text
      { data := 0, stop := apostropheElement.text.length } = some none :=
  ⟨wellFormed_texted (by decide) (by decide), rfl, rfl⟩

/-- `<a>so 'it' is</a>`, where two apostrophes pair up. -/
def pairedElement : XmlElement :=
  .node { name := lit "a", attrs := [], space := [] } (.chars (lit "so 'it' is") .nil) []

theorem framing_iff_paired : xmlfsmSkipNode (pairedElement.text ++ lit "<b/>")
    { data := 0, stop := (pairedElement.text ++ lit "<b/>").length }
      = some (some pairedElement.text.length) := by
  have hwf : pairedElement.WellFormed := wellFormed_texted (by decide) (by decide)
  have hpaired : RunsPaired pairedElement.front := by
    intro run hm
    have hrun : run = lit "so 'it' is" := by
      simpa [pairedElement, XmlElement.front, XmlContent.tokens] using hm
    rw [hrun]
    decide
  obtain ⟨hiff, hsuff⟩ := framing_iff hwf
  have hall := hiff.mpr (hsuff hpaired) [] (lit "<b/>")
  rwa [List.nil_append, List.length_nil, Nat.zero_add] at hall

end Mukite
