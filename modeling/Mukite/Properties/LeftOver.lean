import Mukite.Properties.Forged
import Mukite.Properties.ParsedStanza

/-!
# What is left of a printed presence

Where no quote stands in character data and no name begins like a comment or a processing
instruction, a reader of XML finds at the top of a content just its elements (`run_content`). And
the parser finds every `<x/>` that has one of the namespaces as it is written. So what a clean-up
leaves of the payload of such a presence shows exactly the other elements (`leftOver_printed`): the
only room data in it has a label before its name, or a namespace that is written with references.
Without labels and references there is none (`unforged_leftOver`).
-/

namespace Mukite

open XmlReader (InTag run special)

/-! ## What a reader finds in a content -/

/-- What a reader takes for the tag of an element. -/
def XmlElement.shownTag : XmlElement → Bytes
  | .empty tag => tag.text ++ [ch '/']
  | .node tag _ _ => tag.text

/-- No name begins like a comment or a processing instruction. -/
def XmlContent.Ordinary (content : XmlContent) : Prop :=
  ∀ token ∈ content.tokens, ∀ tag, token = .start tag ∨ token = .empty tag →
    special tag.name = false

theorem ordinary_chars {text : Bytes} {rest : XmlContent}
    (h : (XmlContent.chars text rest).Ordinary) : rest.Ordinary := fun token ht => h token (List.mem_cons_of_mem _ ht)

theorem ordinary_empty {tag : XmlTag} {rest : XmlContent}
    (h : (XmlContent.empty tag rest).Ordinary) :
    special tag.name = false ∧ rest.Ordinary :=
  ⟨h _ List.mem_cons_self tag (.inr rfl), fun token ht => h token (List.mem_cons_of_mem _ ht)⟩

theorem ordinary_node {tag : XmlTag} {inner rest : XmlContent} {space : Bytes}
    (h : (XmlContent.node tag inner space rest).Ordinary) :
    special tag.name = false ∧ inner.Ordinary ∧ rest.Ordinary := by
  refine ⟨h _ List.mem_cons_self tag (.inl rfl), fun token ht => h token ?_,
    fun token ht => h token ?_⟩
  · exact List.mem_cons_of_mem _ (List.mem_append_left _ ht)
  · exact List.mem_cons_of_mem _ (List.mem_append_right _ (List.mem_cons_of_mem _ ht))

/-- The first element of a content, on its own. -/
theorem firstElement_tokens {tag : XmlTag} {inner rest : XmlContent} {space : Bytes} :
    (∀ token ∈ (XmlElement.empty tag).content.tokens, token ∈ (XmlContent.empty tag rest).tokens) ∧
      ∀ token ∈ (XmlElement.node tag inner space).content.tokens,
        token ∈ (XmlContent.node tag inner space rest).tokens := by
  constructor
  · intro token ht
    simp only [XmlElement.content, XmlContent.tokens, List.mem_singleton] at ht
    exact ht ▸ List.mem_cons_self
  · intro token ht
    simp only [XmlElement.content, XmlContent.tokens, List.mem_cons, List.mem_append,
      List.not_mem_nil, or_false] at ht ⊢
    rcases ht with ht | ht | ht
    · exact .inl ht
    · exact .inr (.inl ht)
    · exact .inr (.inr (.inl ht))

section Tags

variable {tag : XmlTag} {text : Bytes}

/-- What a reader makes of white space. -/
theorem white_read {c : UInt8} (h : whitespace c = true) : XmlReader.quotes c = false ∧
    c ≠ ch '>' ∧ XmlReader.inName c = false := by
  unfold whitespace at h
  simp only [Bool.or_eq_true, beq_iff_eq] at h
  rcases h with ((rfl | rfl) | rfl) | rfl <;> decide

/-- What it makes of a character of a name. -/
theorem nameChar_read {c : UInt8} (h : nameChar c = true) : XmlReader.quotes c = false ∧
    c ≠ ch '>' ∧ XmlReader.inName c = true ∧
      (XmlReader.white c || c == XmlReader.chr '=') = false := by
  obtain ⟨hwhite, hmark⟩ := not_mem_of_nameChar h
  have hwhite : XmlReader.white c = false := hwhite
  simp only [nameChar, Bool.and_eq_true, bne_iff_ne] at h
  refine ⟨?_, ?_, ?_, ?_⟩
  · unfold XmlReader.quotes
    rw [Bool.or_eq_false_iff, beq_eq_false_iff_ne, beq_eq_false_iff_ne]
    exact ⟨h.2, h.1.2⟩
  · rintro rfl
    exact hmark (by decide)
  · unfold XmlReader.inName
    rw [hwhite, Bool.not_false, Bool.true_and, bne_iff_ne]
    rintro rfl
    exact hmark (by decide)
  · rw [hwhite, Bool.false_or, beq_eq_false_iff_ne]
    rintro rfl
    exact hmark (by decide)

theorem inTag_white (h : ∀ c ∈ text, whitespace c = true) : InTag text :=
  .of_all fun c hc => ⟨(white_read (h c hc)).1, (white_read (h c hc)).2.1⟩

theorem inTag_name (h : text.all nameChar = true) : InTag text := by
  refine .of_all fun c hc => ?_
  have hread := nameChar_read (List.all_eq_true.mp h c hc)
  exact ⟨hread.1, hread.2.1⟩

theorem AttrText.Printed.inTag {a : AttrText} (h : a.Printed) : XmlReader.InTag a.text := by
  obtain ⟨s, s', hwhite, hgap⟩ := h.gap
  have hquote : XmlReader.quotes a.quote = true := by
    rcases h.quote with he | he <;> rw [he] <;> decide
  have hrest : XmlReader.InTag (a.quote :: (a.value ++ [a.quote])) := .value hquote h.value .nil
  have hgaps : XmlReader.InTag a.gap := by
    rw [hgap]
    refine (inTag_white fun c hc => hwhite c (List.mem_append_left _ hc)).append ?_
    exact .char (by decide) (by decide)
      (inTag_white fun c hc => hwhite c (List.mem_append_right _ hc))
  exact (inTag_white h.lead.2).append ((inTag_name h.name.2).append (hgaps.append hrest))

theorem XmlTag.Printed.inTag (h : tag.Printed) : InTag tag.text := by
  have hattrs : ∀ {attrs : List AttrText}, (∀ a ∈ attrs, a.Printed) → InTag (attrsText attrs) := by
    intro attrs ha
    induction attrs with
    | nil => exact .nil
    | cons a attrs ih =>
      rw [attrsText_cons]
      exact (ha a List.mem_cons_self).inTag.append
        (ih fun b hb => ha b (List.mem_cons_of_mem _ hb))
  exact (inTag_name h.name.2).append ((hattrs h.attrs).append (inTag_white h.space))

/-- The name decides how a tag begins. -/
theorem XmlTag.Printed.head (h : tag.Printed) (text : Bytes) :
    (tag.text ++ text).head? = tag.name.head? := by
  obtain ⟨c, rest, hname⟩ := List.exists_cons_of_ne_nil h.name.1
  unfold XmlTag.text
  rw [hname]
  rfl

theorem XmlTag.Printed.head_ne (h : tag.Printed) (text : Bytes) :
    (tag.text ++ text).head? ≠ some (ch '/') := by
  obtain ⟨c, rest, hname⟩ := List.exists_cons_of_ne_nil h.name.1
  rw [h.head, hname, List.head?_cons]
  intro he
  have hchar := List.all_eq_true.mp h.name.2 c (hname ▸ List.mem_cons_self)
  rw [Option.some.inj he] at hchar
  exact absurd hchar (by decide)

theorem XmlTag.Printed.special (h : tag.Printed) (hname : XmlReader.special tag.name = false)
    (text : Bytes) : XmlReader.special (tag.text ++ text) = false := by
  unfold XmlReader.special at hname ⊢
  rw [h.head]
  exact hname

/-- No tag ends in a slash of its own. -/
theorem XmlTag.Printed.last_ne (h : tag.Printed) : tag.text.getLast? ≠ some (ch '/') := by
  have hattr : ∀ {a : AttrText}, a.text.getLast? = some a.quote := by
    intro a
    have htext : a.text = (a.lead ++ a.name ++ a.gap ++ a.quote :: a.value) ++ [a.quote] := by
      simp [AttrText.text, AttrText.rest]
    rw [htext, List.getLast?_concat]
  have hattrs : ∀ {attrs : List AttrText}, (∀ a ∈ attrs, a.Printed) →
      (attrsText attrs).getLast? ≠ some (ch '/') := by
    intro attrs ha
    induction attrs with
    | nil =>
      intro he
      cases he
    | cons a attrs ih =>
      rw [attrsText_cons, List.getLast?_append, hattr]
      intro he
      rcases Option.or_eq_some_iff.mp he with he | ⟨-, he⟩
      · exact ih (fun b hb => ha b (List.mem_cons_of_mem _ hb)) he
      · rcases (ha a List.mem_cons_self).quote with hq | hq <;>
          exact absurd (hq.symm.trans (Option.some.inj he)) (by decide)
  intro he
  unfold XmlTag.text at he
  rw [List.getLast?_append, List.getLast?_append] at he
  rcases Option.or_eq_some_iff.mp he with he | ⟨-, he⟩
  · rcases Option.or_eq_some_iff.mp he with he | ⟨-, he⟩
    · exact absurd (h.space _ (List.mem_of_getLast? he)) (by decide)
    · exact hattrs h.attrs he
  · exact absurd (List.all_eq_true.mp h.name.2 _ (List.mem_of_getLast? he)) (by decide)

end Tags

variable {content : XmlContent} {element : XmlElement} {text : Bytes} {depth : Nat}

theorem children_empty {tag : XmlTag} {rest : XmlContent} :
    (XmlContent.empty tag rest).children text = (text, .empty tag) :: rest.children [] := rfl

theorem children_node {tag : XmlTag} {inner rest : XmlContent} {space : Bytes} :
    (XmlContent.node tag inner space rest).children text
      = (text, .node tag inner space) :: rest.children [] := rfl

theorem run_escaped (h : Escaped text) :
    run { depth := depth, tag := none } text = ({ depth := depth, tag := none }, []) :=
  XmlReader.run_plain fun hm => (h.char hm).1 rfl

/-- **A reader finds the elements of a content**, if it is at the top, and is where it was. -/
theorem run_content (h : content.Printed) (hn : content.Ordinary) (before : Bytes) :
    run { depth := depth, tag := none } content.text = ({ depth := depth, tag := none },
      if depth = 0 then (content.children before).map (fun child => child.2.shownTag) else []) := by
  induction content generalizing depth before with
  | nil =>
    show ((_ : XmlReader.Reader), ([] : List Bytes)) = _
    split <;> rfl
  | chars text rest ih =>
    obtain ⟨htext, hrest⟩ := printed_chars.mp h
    have hsplit : (XmlContent.chars text rest).text = text ++ rest.text := rfl
    rw [hsplit, XmlReader.run_append, run_escaped htext,
      ih hrest (ordinary_chars hn) (before ++ text)]
    rfl
  | empty tag rest ih =>
    obtain ⟨htag, hrest⟩ := printed_empty.mp h
    obtain ⟨hname, hn⟩ := ordinary_empty hn
    have hsplit : (XmlContent.empty tag rest).text
        = (ch '<' :: (tag.text ++ [ch '/', ch '>'])) ++ rest.text := by
      simp [XmlContent.text, XmlContent.tokens, XmlToken.text, lit]
    have htagged : run { depth := depth, tag := none } (ch '<' :: (tag.text ++ [ch '/', ch '>']))
        = ({ depth := depth, tag := none }, if depth = 0 then [tag.text ++ [ch '/']] else []) :=
      XmlReader.run_empty htag.inTag (htag.special hname _) (htag.head_ne _)
    rw [hsplit, XmlReader.run_append, htagged, ih hrest hn [], children_empty]
    split <;> rfl
  | node tag inner space rest ihinner ih =>
    obtain ⟨htag, hinner, hspace, hrest⟩ := printed_node.mp h
    obtain ⟨hname, hninner, hn⟩ := ordinary_node hn
    have hsplit : (XmlContent.node tag inner space rest).text
        = (ch '<' :: (tag.text ++ [ch '>'])) ++ (inner.text ++
          ((ch '<' :: ch '/' :: (tag.name ++ space ++ [ch '>'])) ++ rest.text)) := by
      simp [XmlContent.text, XmlContent.tokens, XmlToken.text, lit]
    -- the reader is one element deeper between the tags
    have hspecial := htag.special hname []
    have hfirst := htag.head_ne []
    rw [List.append_nil] at hspecial hfirst
    have hstart : run { depth := depth, tag := none } (ch '<' :: (tag.text ++ [ch '>']))
        = ({ depth := depth + 1, tag := none }, if depth = 0 then [tag.text] else []) :=
      XmlReader.run_start htag.inTag hspecial hfirst htag.last_ne
    have hstop : run { depth := depth + 1, tag := none }
          (ch '<' :: ch '/' :: (tag.name ++ space ++ [ch '>']))
        = ({ depth := depth + 1 - 1, tag := none }, []) :=
      XmlReader.run_stop ((inTag_name htag.name.2).append (inTag_white hspace))
    rw [hsplit, XmlReader.run_append, hstart, XmlReader.run_append, ihinner hinner hninner [],
      XmlReader.run_append, hstop, Nat.add_sub_cancel, ih hrest hn [],
      if_neg (Nat.succ_ne_zero depth), children_node]
    split <;> rfl

/-- An element is closed, and the one at its top. -/
theorem run_element (h : element.Printed) (hn : element.content.Ordinary) :
    run XmlReader.atTop element.text = (XmlReader.atTop, [element.shownTag]) := by
  have hcontent := @run_content _ 0 (XmlElement.printed_content.mpr h) hn []
  rw [XmlElement.text_content, if_pos rfl] at hcontent
  cases element <;> exact hcontent

/-! ## Blanks for the forms -/

/-- An `<x/>` with one of the namespaces. -/
def isRoomForm (child : Bytes × XmlElement) : Bool :=
  isForm xmlnsMuc child || isForm xmlnsMucUser child

/-- The text of a child, with the character data before it. -/
def childText (child : Bytes × XmlElement) : Bytes := child.1 ++ child.2.text

/-- What there is left of it, if the forms are blanked. -/
def childLeft (child : Bytes × XmlElement) : Bytes :=
  if isRoomForm child then List.replicate (childText child).length (ch ' ') else childText child

/-- What there is left of a content. -/
def XmlContent.left : Bytes → XmlContent → Bytes
  | run, .nil => run
  | run, .chars text rest => rest.left (run ++ text)
  | run, .empty tag rest => childLeft (run, .empty tag) ++ rest.left []
  | run, .node tag inner space rest => childLeft (run, .node tag inner space) ++ rest.left []

/-- The children that are no forms. -/
def otherTags (children : List (Bytes × XmlElement)) : List Bytes :=
  (children.filter (fun child => !isRoomForm child)).map (fun child => child.2.shownTag)

theorem otherTags_cons (child : Bytes × XmlElement) (children : List (Bytes × XmlElement)) :
    otherTags (child :: children) = otherTags [child] ++ otherTags children := by
  unfold otherTags
  rw [← List.map_append, ← List.filter_append]
  rfl

theorem run_childLeft (h : element.Printed) (hn : element.content.Ordinary) (htext : Escaped text) :
    run XmlReader.atTop (childLeft (text, element))
      = (XmlReader.atTop, otherTags [(text, element)]) := by
  unfold childLeft otherTags
  by_cases hform : isRoomForm (text, element) = true
  · rw [if_pos hform, List.filter_cons_of_neg (by rw [hform]; decide)]
    refine XmlReader.run_plain fun hm => ?_
    exact absurd (List.eq_of_mem_replicate hm) (by decide)
  · rw [if_neg hform, List.filter_cons_of_pos (by simpa using hform)]
    unfold childText
    rw [XmlReader.run_append, show XmlReader.atTop = { depth := 0, tag := none } from rfl,
      run_escaped htext]
    exact run_element h hn

/-- Each child of a content is printed. -/
theorem printed_children (h : content.Printed) {child : Bytes × XmlElement}
    (hc : child ∈ content.children text) : child.2.Printed := by
  induction content generalizing text with
  | nil => exact absurd hc List.not_mem_nil
  | chars more rest ih => exact ih (printed_chars.mp h).2 hc
  | empty tag rest ih =>
    rw [children_empty] at hc
    rcases List.mem_cons.mp hc with rfl | hc
    · exact XmlElement.printed_content.mp fun token ht =>
        h token ((@firstElement_tokens tag .nil rest []).1 token ht)
    · exact ih (printed_empty.mp h).2 hc
  | node tag inner space rest _ ih =>
    rw [children_node] at hc
    rcases List.mem_cons.mp hc with rfl | hc
    · exact XmlElement.printed_content.mp fun token ht =>
        h token ((@firstElement_tokens tag inner rest space).2 token ht)
    · exact ih (printed_node.mp h).2.2.2 hc

/-- **What is left of a content shows the children that are no forms.** -/
theorem run_left (h : content.Printed) (hn : content.Ordinary) : ∀ {text : Bytes}, Escaped text →
    run XmlReader.atTop (content.left text)
      = (XmlReader.atTop, otherTags (content.children text)) := by
  induction content with
  | nil =>
    intro text htext
    exact run_escaped htext
  | chars more rest ih =>
    intro text htext
    obtain ⟨hmore, hrest⟩ := printed_chars.mp h
    exact ih hrest (ordinary_chars hn) (htext.append hmore)
  | empty tag rest ih =>
    intro text htext
    have htokens := (@firstElement_tokens tag .nil rest []).1
    have hone := @run_childLeft (.empty tag) text
      (XmlElement.printed_content.mp fun token ht => h token (htokens token ht))
      (fun token ht => hn token (htokens token ht)) htext
    show run XmlReader.atTop (childLeft (text, .empty tag) ++ rest.left []) = _
    rw [XmlReader.run_append, hone, ih (printed_empty.mp h).2 (ordinary_empty hn).2 (by exact rfl)]
    rw [children_empty, otherTags_cons _ (rest.children [])]
  | node tag inner space rest _ ih =>
    intro text htext
    have htokens := (@firstElement_tokens tag inner rest space).2
    have hone := @run_childLeft (.node tag inner space) text
      (XmlElement.printed_content.mp fun token ht => h token (htokens token ht))
      (fun token ht => hn token (htokens token ht)) htext
    show run XmlReader.atTop (childLeft (text, .node tag inner space) ++ rest.left []) = _
    rw [XmlReader.run_append, hone, ih (printed_node.mp h).2.2.2 (ordinary_node hn).2.2
      (by exact rfl)]
    rw [children_node, otherTags_cons _ (rest.children [])]

/-! ## Where the children stand -/

/-- The children with the positions where they begin, the character data before them included. -/
def XmlContent.placed : Nat → Bytes → XmlContent → List (Nat × (Bytes × XmlElement))
  | _, _, .nil => []
  | k, run, .chars text rest => rest.placed k (run ++ text)
  | k, run, .empty tag rest =>
    (k, run, .empty tag) :: rest.placed (k + (childText (run, .empty tag)).length) []
  | k, run, .node tag inner space rest =>
    (k, run, .node tag inner space) ::
      rest.placed (k + (childText (run, .node tag inner space)).length) []

/-- The place of a child. -/
def placeOf (c : Nat × (Bytes × XmlElement)) : Span :=
  { data := c.1, stop := c.1 + (childText c.2).length }

/-- A text that begins at `k`, with blanks at some positions. -/
def masked (blank : Nat → Bool) (k : Nat) (text : Bytes) : Bytes :=
  text.mapIdx (fun i c => if blank (k + i) then ch ' ' else c)

section Masked

variable {blank : Nat → Bool} {k : Nat} {u v : Bytes}

theorem masked_append :
    masked blank k (u ++ v) = masked blank k u ++ masked blank (k + u.length) v := by
  unfold masked
  rw [List.mapIdx_append]
  simp only [Nat.add_assoc, Nat.add_comm u.length]

theorem masked_eq (b : Bool) (h : ∀ i, k ≤ i → i < k + u.length → blank i = b) :
    masked blank k u = if b then List.replicate u.length (ch ' ') else u := by
  unfold masked
  apply List.ext_getElem?
  intro i
  rw [List.getElem?_mapIdx]
  cases hi : u[i]? with
  | none =>
    have hlen := List.getElem?_eq_none_iff.mp hi
    cases b
    · exact hi.symm
    · simp [Nat.not_lt.mpr hlen]
  | some c =>
    have hlt := (List.getElem?_eq_some_iff.mp hi).1
    have hb := h (k + i) (Nat.le_add_right _ _) (by omega)
    cases b
    · simp [hb, hi]
    · simp [hb, hlt]

/-- The forms are blank, and what belongs to no child is not. -/
structure FormsBlank (blank : Nat → Bool) (k : Nat) (children : List (Nat × (Bytes × XmlElement))) :
    Prop where
  each : ∀ c ∈ children, ∀ i, (placeOf c).data ≤ i → i < (placeOf c).stop →
    blank i = isRoomForm c.2
  between : ∀ i, k ≤ i → (∀ c ∈ children, i < (placeOf c).data ∨ (placeOf c).stop ≤ i) →
    blank i = false

variable {child : Bytes × XmlElement} {children : List (Nat × (Bytes × XmlElement))}

theorem FormsBlank.cons (h : FormsBlank blank k ((k, child) :: children)) :
    masked blank k (childText child) = childLeft child ∧
      FormsBlank blank (k + (childText child).length) children := by
  refine ⟨masked_eq (isRoomForm child) (h.each _ List.mem_cons_self),
    fun c hc => h.each c (List.mem_cons_of_mem _ hc), fun i hi hout => h.between i (by omega) ?_⟩
  intro c hc
  rcases List.mem_cons.mp hc with rfl | hc
  · exact .inr hi
  · exact hout c hc

/-- **If the forms are blank and nothing else, that is what is left.** -/
theorem masked_content {content : XmlContent} (tail : Bytes) : ∀ {k : Nat} {text : Bytes},
    FormsBlank blank k (content.placed k text) →
      masked blank k (text ++ (content.text ++ tail)) = content.left text ++ tail := by
  induction content with
  | nil =>
    intro k text h
    exact masked_eq false fun i hi _ => h.between i hi fun _ hc => absurd hc List.not_mem_nil
  | chars more rest ih =>
    intro k text h
    have hsplit : text ++ ((XmlContent.chars more rest).text ++ tail)
        = (text ++ more) ++ (rest.text ++ tail) := by
      simp [XmlContent.text, XmlContent.tokens, XmlToken.text]
    rw [hsplit]
    exact ih h
  | empty tag rest ih =>
    intro k text h
    obtain ⟨hchild, hrest⟩ := FormsBlank.cons h
    have hsplit : text ++ ((XmlContent.empty tag rest).text ++ tail)
        = childText (text, .empty tag) ++ ([] ++ (rest.text ++ tail)) := by
      simp [childText, XmlContent.text, XmlContent.tokens, XmlElement.text, XmlElement.front,
        XmlElement.last]
    rw [hsplit, masked_append, hchild, ih hrest, ← List.append_assoc]
    rfl
  | node tag inner space rest _ ih =>
    intro k text h
    obtain ⟨hchild, hrest⟩ := FormsBlank.cons h
    have hsplit : text ++ ((XmlContent.node tag inner space rest).text ++ tail)
        = childText (text, .node tag inner space) ++ ([] ++ (rest.text ++ tail)) := by
      simp [childText, XmlContent.text, XmlContent.tokens, XmlElement.text, XmlElement.front,
        XmlElement.last]
    rw [hsplit, masked_append, hchild, ih hrest, ← List.append_assoc]
    rfl

end Masked

/-! ## What the parser finds -/

section Visited

variable {mem text : Bytes} {buffer : Span} {content : XmlContent} {element : XmlElement}
  {nodes : XmlNodeTraverser} {state : AttrState} {stop : Nat}

/-- **The parser takes a child for one of the forms exactly if it is one.** -/
theorem found_iff (hfound : FoundNode mem buffer text element nodes)
    (hattrs : AttrsRead mem nodes.node.data element.tag.attrs state stop) :
    Found mem nodes ↔ isRoomForm (text, element) = true := by
  obtain ⟨found, d, hskip, hvalue⟩ := @skiptoAttr_read _ _ _ _ "xmlns" _ hattrs
  unfold Found isRoomForm isForm
  rw [hfound.name.eqLit, hskip, Bool.or_eq_true, Bool.and_eq_true, Bool.and_eq_true, ← and_or_left]
  refine and_congr_right fun _ => ?_
  rcases hvalue with ⟨rfl, hnone⟩ | ⟨attr, value, rfl, hsome, hspan⟩
  · rw [hnone]
    constructor
    · rintro ⟨attr, next, hno, -⟩
      cases hno
    · rintro (hno | hno) <;> cases hno
  · have hvalue : ∀ ns, (some value == some (lit ns)) = (value == lit ns) := fun _ => rfl
    rw [hsome, hvalue, hvalue, ← hspan.eqLit, ← hspan.eqLit]
    constructor
    · rintro ⟨attr', next, he, hor⟩
      cases he
      exact hor
    · intro hor
      exact ⟨attr, d, rfl, hor⟩

/-- A node that is visited is a child where it stands. -/
structure VisitedAs (mem : Bytes) (n : XmlNodeTraverser) (c : Nat × (Bytes × XmlElement)) :
    Prop where
  extent : n.extent = placeOf c
  found : Found mem n ↔ isRoomForm c.2 = true

theorem FoundNode.visitedAs (hfound : FoundNode mem buffer text element nodes)
    (hattrs : AttrsRead mem nodes.node.data element.tag.attrs state stop) :
    VisitedAs mem nodes (buffer.data, text, element) ∧
      nodes.buffer.data = buffer.data + (childText (text, element)).length := by
  have hsize : nodes.extent.size = (childText (text, element)).length := hfound.extent.size
  unfold Span.size at hsize
  have hstart : nodes.extent.data = buffer.data := hfound.start
  have hstop : nodes.extent.stop = buffer.data + (childText (text, element)).length := by omega
  refine ⟨⟨?_, found_iff hfound hattrs⟩, ?_⟩
  · unfold placeOf
    rw [← hstop, ← hstart]
  · rw [hfound.left]
    exact hstop

/-- The nodes that are visited are these children, each where it stands. -/
structure VisitedAll (mem : Bytes) (visited : List XmlNodeTraverser)
    (children : List (Nat × (Bytes × XmlElement))) : Prop where
  child : ∀ n ∈ visited, ∃ c ∈ children, VisitedAs mem n c
  node : ∀ c ∈ children, ∃ n ∈ visited, VisitedAs mem n c

theorem VisitedAll.cons {n : XmlNodeTraverser} {c : Nat × (Bytes × XmlElement)}
    {visited : List XmlNodeTraverser} {children : List (Nat × (Bytes × XmlElement))}
    (hn : VisitedAs mem n c) (h : VisitedAll mem visited children) :
    VisitedAll mem (n :: visited) (c :: children) := by
  constructor
  · intro m hm
    rcases List.mem_cons.mp hm with rfl | hm
    · exact ⟨c, List.mem_cons_self, hn⟩
    · obtain ⟨d, hd, hmd⟩ := h.child m hm
      exact ⟨d, List.mem_cons_of_mem _ hd, hmd⟩
  · intro d hd
    rcases List.mem_cons.mp hd with rfl | hd
    · exact ⟨n, List.mem_cons_self, hn⟩
    · obtain ⟨m, hm, hmd⟩ := h.node d hd
      exact ⟨m, List.mem_cons_of_mem _ hm, hmd⟩

/-- A traversal that finds a node goes on behind it. -/
theorem Visits.found (h : xmlfsmNextSibling mem buffer = some (some nodes))
    {visited : List XmlNodeTraverser} (hv : Visits mem buffer visited) :
    ∃ rest, visited = nodes :: rest ∧ Visits mem nodes.buffer rest := by
  cases hv with
  | none h' =>
    rw [h] at h'
    cases h'
  | next h' hv =>
    rw [h] at h'
    cases h'
    exact ⟨_, rfl, hv⟩

/-- **The nodes that are visited are the children.** -/
theorem visits_placed (h : ContentRead mem buffer text content) :
    ∀ {visited : List XmlNodeTraverser}, Visits mem buffer visited →
      VisitedAll mem visited (content.placed buffer.data text) := by
  induction h with
  | nil h =>
    intro visited hv
    cases hv with
    | none _ =>
      exact ⟨fun _ hm => absurd hm List.not_mem_nil, fun _ hm => absurd hm List.not_mem_nil⟩
    | next h' _ =>
      rw [h] at h'
      cases h'
  | chars _ ih => exact ih
  | empty h hfound hattrs _ ih =>
    intro visited hv
    obtain ⟨rest, rfl, hrest⟩ := hv.found h
    obtain ⟨hone, hbehind⟩ := hfound.visitedAs hattrs
    have hrest := ih hrest
    rw [hbehind] at hrest
    exact .cons hone hrest
  | node h hfound hattrs _ _ _ ih =>
    intro visited hv
    obtain ⟨rest, rfl, hrest⟩ := hv.found h
    obtain ⟨hone, hbehind⟩ := hfound.visitedAs hattrs
    have hrest := ih hrest
    rw [hbehind] at hrest
    exact .cons hone hrest

end Visited

/-! ## What is left -/

section LeftOver

variable {ingress : IncomingPacket} {content : XmlContent} {element : XmlElement} {run : Bytes}

theorem inFound_iff {pos : Nat} : inFound ingress pos = true ↔ ∃ s : Span,
    (ingress.muc = some s ∨ ingress.mucUser = some s) ∧ s.data ≤ pos ∧ pos < s.stop := by
  unfold inFound
  cases ingress.muc <;> cases ingress.mucUser <;> simp [or_and_right, exists_or]

/-- **The forms of a payload are what has been found in it.** -/
theorem NodesFound.formsBlank {inner : Span} {nodes : List XmlNodeTraverser} {last : Nat}
    (h : NodesFound ingress inner nodes last) (hr : ContentRead ingress.mem inner [] content) :
    FormsBlank (inFound ingress) inner.data (content.placed inner.data []) := by
  have hvisited := visits_placed hr h.visits
  -- what is blank belongs to a node that was found
  have hblank : ∀ i, inFound ingress i = true → ∃ m ∈ nodes, Found ingress.mem m ∧
      m.extent.data ≤ i ∧ i < m.extent.stop := by
    intro i hi
    obtain ⟨s, hs | hs, hdata, hstop⟩ := inFound_iff.mp hi
    · obtain ⟨m, hm, hfound, rfl⟩ := h.muc s hs
      exact ⟨m, hm, hfound, hdata, hstop⟩
    · obtain ⟨m, hm, hfound, rfl⟩ := h.mucUser s hs
      exact ⟨m, hm, hfound, hdata, hstop⟩
  constructor
  · intro c hc i hdata hstop
    obtain ⟨n, hn, hnc⟩ := hvisited.node c hc
    rw [← hnc.extent] at hdata hstop
    rw [Bool.eq_iff_iff, ← hnc.found]
    constructor
    · intro hi
      obtain ⟨m, hm, hfound, hdata', hstop'⟩ := hblank i hi
      -- two nodes that share a position are one
      rcases h.laid.eq_or_apart hn hm with rfl | hapart | hapart
      · exact hfound
      · omega
      · omega
    · intro hfound
      exact inFound_iff.mpr ⟨n.extent, h.all n hn hfound, hdata, hstop⟩
  · intro i _ hout
    rw [Bool.eq_false_iff]
    intro hi
    obtain ⟨m, hm, -, hdata, hstop⟩ := hblank i hi
    obtain ⟨c, hc, hmc⟩ := hvisited.child m hm
    have hc := hout c hc
    rw [← hmc.extent] at hc
    omega

/-- A payload with something in it has a place. -/
theorem innerBytes_some {b : Bytes} (h : ingress.innerBytes = some (some b)) :
    ∃ inner, ingress.inner = some inner ∧ inner.data ≤ inner.stop ∧
      inner.bytes ingress.mem = b := by
  unfold IncomingPacket.innerBytes at h
  cases hinner : ingress.inner with
  | none =>
    rw [hinner] at h
    cases h
  | some inner =>
    rw [hinner] at h
    obtain ⟨b', hb, he⟩ := Option.map_eq_some_iff.mp h
    cases he
    unfold Span.copy at hb
    split at hb
    · cases hb
    · next hle => exact ⟨inner, rfl, Nat.not_lt.mp hle, Option.some.inj hb⟩

/-- **Of a printed presence a clean-up leaves the children that are no forms.** -/
theorem leftOver_printed (h : element.Printed) (hn : element.inside.Ordinary)
    (hrun : Escaped run) (hp : packetParse (run ++ element.text) = some (some ingress))
    (hname : ingress.name = .presence) :
    XmlReader.elements (bptBytes (leftOver ingress)) = otherTags (element.inside.children []) := by
  obtain ⟨hsaid, hread⟩ := packetParse_contentRead h hrun hp
  have hinner := hsaid.inner
  cases element with
  | empty tag =>
    have hnone : ingress.inner = none := by
      cases hi : ingress.inner with
      | none => rfl
      | some inner =>
        unfold IncomingPacket.innerBytes at hinner
        rw [hi] at hinner
        obtain ⟨_, -, he⟩ := Option.map_eq_some_iff.mp hinner
        cases he
    unfold leftOver
    rw [hnone]
    rfl
  | node tag content space =>
    obtain ⟨inner, hi, hle, hbytes⟩ := innerBytes_some hinner
    have hwhole := XmlElement.printed_content.mpr h
    obtain ⟨htag, hcontent, hspace, -⟩ := printed_node.mp hwhole
    have haccepted : Accepted ingress := ⟨_, hp⟩
    obtain ⟨nodes, last, hf⟩ := haccepted.nodesFound hname hi hle
    rw [hi] at hread
    have hblank : FormsBlank (inFound ingress) inner.data (content.placed inner.data []) :=
      hf.formsBlank hread
    have hmasked := masked_content ((XmlToken.stop tag.name space).text.take space.length) hblank
    have hleft : leftOver ingress = some (masked (inFound ingress) inner.data
        (inner.bytes ingress.mem)) := by
      unfold leftOver
      rw [hi]
      rfl
    have hclosed : XmlReader.run XmlReader.atTop (content.left [])
        = (XmlReader.atTop, otherTags (content.children [])) := run_left hcontent hn rfl
    have hstop := @XmlReader.run_stop _ 0 ((inTag_name htag.name.2).append (inTag_white hspace))
    -- the payload may reach into the end tag, in which no element starts
    have htail :
        XmlReader.elements ((XmlToken.stop tag.name space).text.take space.length) = [] := by
      have htake := @XmlReader.elements_take (XmlToken.stop tag.name space).text space.length
      rw [show XmlReader.elements (XmlToken.stop tag.name space).text = []
        from congrArg Prod.snd hstop] at htake
      exact List.prefix_nil.mp htake
    rw [hleft, hbytes]
    show XmlReader.elements (masked _ _ ([] ++ (content.text ++ _))) = _
    rw [hmasked, XmlReader.elements_append (congrArg Prod.fst hclosed), htail, List.append_nil]
    exact congrArg Prod.snd hclosed

theorem printed_inside (h : element.Printed) : element.inside.Printed := by
  cases element with
  | empty tag => exact fun _ ht => absurd ht List.not_mem_nil
  | node tag content space => exact (printed_node.mp (XmlElement.printed_content.mpr h)).2.1

/-- **So its payload is clean exactly if no other child starts like room data.** -/
theorem unforged_leftOver_iff (h : element.Printed) (hn : element.inside.Ordinary)
    (hrun : Escaped run) (hp : packetParse (run ++ element.text) = some (some ingress))
    (hname : ingress.name = .presence) (header : Buffer) :
    Unforged header (leftOver ingress) ↔ ∀ child ∈ element.inside.children [],
      isRoomForm child = false → startsRoomData header child.2.shownTag = false := by
  unfold Unforged
  rw [leftOver_printed h hn hrun hp hname]
  unfold otherTags
  simp only [List.forall_mem_map, List.mem_filter, Bool.not_eq_true', and_imp]

end LeftOver

/-! ## Children without labels and references -/

/-- The name of a tag has no label, and the values in it have no references. -/
structure XmlTag.Plain (tag : XmlTag) : Prop where
  label : ch ':' ∉ tag.name
  references : ∀ a ∈ tag.attrs, ch '&' ∉ a.value

section Plain

variable {tag : XmlTag} {element : XmlElement} {content : XmlContent} {text : Bytes}

/-- Behind the name of a tag there is white space, or its end. -/
theorem XmlTag.Printed.head_behind (h : tag.Printed)
    (htext : ∀ c ∈ text.head?, XmlReader.inName c = false) :
    ∀ c ∈ (attrsText tag.attrs ++ (tag.space ++ text)).head?, XmlReader.inName c = false := by
  intro c hc
  cases hattrs : tag.attrs with
  | nil =>
    rw [hattrs] at hc
    cases hspace : tag.space with
    | nil =>
      rw [hspace] at hc
      exact htext c hc
    | cons d rest =>
      rw [hspace] at hc
      obtain rfl := Option.some.inj hc
      exact (white_read (h.space d (hspace ▸ List.mem_cons_self))).2.2
  | cons a attrs =>
    rw [hattrs, attrsText_cons] at hc
    have ha := h.attrs a (hattrs ▸ List.mem_cons_self)
    obtain ⟨d, lead, hlead⟩ := List.exists_cons_of_ne_nil ha.lead.1
    have hfirst : a.text = d :: (lead ++ (a.name ++ a.rest)) := by
      unfold AttrText.text
      rw [hlead]
      rfl
    rw [hfirst] at hc
    obtain rfl := Option.some.inj hc
    exact (white_read (ha.lead.2 d (hlead ▸ List.mem_cons_self))).2.2

/-- White space and the equals sign stand between attributes. -/
theorem gap_read (h : ∀ c ∈ text, whitespace c = true ∨ c = ch '=') :
    ∀ c ∈ text, XmlReader.quotes c = false ∧
      (XmlReader.white c || c == XmlReader.chr '=') = true := by
  intro c hc
  rcases h c hc with hwhite | rfl
  · refine ⟨(white_read hwhite).1, ?_⟩
    rw [show XmlReader.white c = true from hwhite, Bool.true_or]
  · decide

/-- One attribute is read. -/
theorem AttrText.Printed.attrsFrom {a : AttrText} (h : a.Printed) :
    XmlReader.attrsFrom [] none (a.text ++ text)
      = (a.name, a.value) :: XmlReader.attrsFrom [] none text := by
  obtain ⟨s, s', hwhite, hgap⟩ := h.gap
  have hbetween : ∀ c ∈ a.gap, whitespace c = true ∨ c = ch '=' := by
    intro c hc
    rw [hgap] at hc
    rcases List.mem_append.mp hc with hc | hc
    · exact .inl (hwhite c (List.mem_append_left _ hc))
    · rcases List.mem_cons.mp hc with rfl | hc
      · exact .inr rfl
      · exact .inl (hwhite c (List.mem_append_right _ hc))
  have hname : ∀ c ∈ a.name, XmlReader.quotes c = false ∧
      (XmlReader.white c || c == XmlReader.chr '=') = false := by
    intro c hc
    have hread := nameChar_read (List.all_eq_true.mp h.name.2 c hc)
    exact ⟨hread.1, hread.2.2.2⟩
  have hquote : XmlReader.quotes a.quote = true := by
    rcases h.quote with he | he <;> rw [he] <;> decide
  have htext : a.text ++ text
      = a.lead ++ (a.name ++ (a.gap ++ (a.quote :: (a.value ++ a.quote :: text)))) := by
    simp [AttrText.text, AttrText.rest]
  rw [htext, XmlReader.attrsFrom_gap (gap_read fun c hc => .inl (h.lead.2 c hc)),
    XmlReader.attrsFrom_name hname, XmlReader.attrsFrom_gap (gap_read hbetween),
    XmlReader.attrsFrom, if_pos hquote, XmlReader.attrsFrom_value h.value]
  rfl

/-- **The attributes are read as they are printed.** -/
theorem attrsFrom_attrsText (htext : ∀ c ∈ text, XmlReader.quotes c = false) :
    ∀ {attrs : List AttrText}, (∀ a ∈ attrs, a.Printed) →
      XmlReader.attrsFrom [] none (attrsText attrs ++ text)
        = attrs.map (fun a => (a.name, a.value)) := by
  intro attrs ha
  induction attrs with
  | nil => exact XmlReader.attrsFrom_nil htext
  | cons a attrs ih =>
    rw [attrsText_cons, List.append_assoc, (ha a List.mem_cons_self).attrsFrom,
      ih fun b hb => ha b (List.mem_cons_of_mem _ hb)]
    rfl

/-- What a tag says is its name and its attributes. -/
theorem XmlElement.Printed.shownTag (h : element.Printed) :
    XmlReader.tagName element.shownTag = element.tag.name ∧
      XmlReader.attrs element.shownTag = element.tag.attrs.map (fun a => (a.name, a.value)) := by
  have htag : element.tag.Printed := h.tag
  obtain ⟨slash, hshown, hslash⟩ : ∃ slash : Bytes, element.shownTag
      = element.tag.name ++ (attrsText element.tag.attrs ++ (element.tag.space ++ slash)) ∧
        (∀ c ∈ slash, c = ch '/') := by
    cases element with
    | empty tag =>
      refine ⟨[ch '/'], ?_, fun c hc => List.mem_singleton.mp hc⟩
      simp [XmlElement.shownTag, XmlElement.tag, XmlTag.text]
    | node tag inner space =>
      refine ⟨[], ?_, fun c hc => absurd hc List.not_mem_nil⟩
      simp [XmlElement.shownTag, XmlElement.tag, XmlTag.text]
  have hend : ∀ c ∈ slash.head?, XmlReader.inName c = false := by
    intro c hc
    rw [hslash c (List.mem_of_head? hc)]
    decide
  obtain ⟨hname, hattrs⟩ := XmlReader.inName_split (fun c hc =>
    (nameChar_read (List.all_eq_true.mp htag.name.2 c hc)).2.2.1) (htag.head_behind hend)
  unfold XmlReader.attrs
  rw [hshown, hattrs]
  refine ⟨hname, attrsFrom_attrsText (fun c hc => ?_) htag.attrs⟩
  rcases List.mem_append.mp hc with hc | hc
  · exact (white_read (htag.space c hc)).1
  · rw [hslash c hc]
    decide

/-- **Of what has neither labels nor references a form is just what starts like room data.** -/
theorem startsRoomData_shownTag (h : element.Printed) (hplain : element.tag.Plain) :
    startsRoomData none element.shownTag = isRoomForm (text, element) := by
  obtain ⟨hname, hattrs⟩ := h.shownTag
  have hlabel : XmlReader.chr ':' ∉ XmlReader.tagName element.shownTag := by
    rw [hname]
    exact hplain.label
  obtain ⟨hlocal, hspace⟩ := @XmlReader.namespaceOf_plain element.shownTag [] hlabel
  have hvalue : XmlReader.namespaceOf [] element.shownTag
      = firstValue "xmlns" element.tag.attrs := by
    rw [hspace, hattrs, List.append_nil, List.find?_map, Option.map_map]
    exact Option.map_congr fun a ha =>
      XmlReader.resolved_plain (hplain.references a (List.mem_of_find?_eq_some ha))
  unfold startsRoomData isRoomForm isForm
  rw [hlocal, hname]
  show (element.tag.name == lit "x" && (XmlReader.namespaceOf [] element.shownTag).any _) = _
  rw [hvalue, ← Bool.and_or_distrib_left]
  cases firstValue "xmlns" element.tag.attrs <;> rfl

/-- **Nothing that a presence without these brings is left.** -/
theorem unforged_leftOver {ingress : IncomingPacket} {run : Bytes} (h : element.Printed)
    (hn : element.inside.Ordinary) (hrun : Escaped run)
    (hp : packetParse (run ++ element.text) = some (some ingress))
    (hname : ingress.name = .presence)
    (hplain : ∀ child ∈ element.inside.children [], child.2.tag.Plain) :
    Unforged none (leftOver ingress) := by
  refine (unforged_leftOver_iff h hn hrun hp hname none).mpr fun child hc hform => ?_
  rw [@startsRoomData_shownTag _ child.1 (printed_children (printed_inside h) hc) (hplain child hc)]
  exact hform

end Plain

end Mukite
