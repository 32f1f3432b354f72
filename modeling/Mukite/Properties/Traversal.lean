import Mukite.Properties.Moves
import Mukite.Properties.NodeTexts

/-!
# A traversal recovers the document

What the scanning functions find in the text of a printed element, one call after the other:
the element itself, its attributes, how its start tag ends, and in the same way everything inside
of it (`ContentRead`), down to the end of the document (`traversal_recovers`).

The induction is on the content of the element. It carries the character data that stands before
the next element, because the scanner takes it for a part of that element, and the end tag of the
parent, in which there is no node. The nesting level of the scan stays above 0 inside of an element
(`moves_content`).

`xmlfsm_skip_node` moves the data pointer while it scans; that it puts it back when it fails is
said of the loop over the pointer (`skipNodeRound_run`).
-/

namespace Mukite

open TextScan

/-! ## The data pointer -/

/-- Up to its end nothing counts in a quoted stretch. -/
theorem skipNodeLoop_quoted {q : UInt8} {st : SkipState} {v : Bytes} : ∀ {u : Bytes} {pos : Nat},
    q ∉ u → skipNodeLoop { st with quoteChar := some q } pos (u ++ q :: v)
      = skipNodeLoop { st with quoteChar := none } (pos + u.length + 1) v
  | [], pos, _ => by
    simp [skipNodeLoop]
  | c :: u, pos, h => by
    rw [List.mem_cons, not_or] at h
    have hne : (c == q) = false := beq_eq_false_iff_ne.mpr (Ne.symm h.1)
    have ih := @skipNodeLoop_quoted q st v u (pos + 1) h.2
    rw [List.cons_append, skipNodeLoop]
    simp only [hne, Bool.false_eq_true, if_false]
    rw [ih, List.length_cons]
    congr 1
    omega

theorem skipNodeLoop_unquoted {q : UInt8} {st : SkipState} : ∀ {u : Bytes} {pos : Nat},
    q ∉ u → skipNodeLoop { st with quoteChar := some q } pos u = none
  | [], _, _ => rfl
  | c :: u, pos, h => by
    rw [List.mem_cons, not_or] at h
    have hne : (c == q) = false := beq_eq_false_iff_ne.mpr (Ne.symm h.1)
    rw [skipNodeLoop]
    simp only [hne, Bool.false_eq_true, if_false]
    exact skipNodeLoop_unquoted h.2

/-- The rest of a buffer. -/
theorem bytes_drop (mem : Bytes) (data stop i : Nat) :
    (Span.bytes mem { data := data, stop := stop }).drop i
      = Span.bytes mem { data := data + i, stop := stop } := by
  unfold Span.bytes
  dsimp only
  rw [List.drop_take, List.drop_drop, Nat.sub_sub]

/-- `memchr` cuts a buffer at the first occurrence. -/
theorem memchr_some {mem : Bytes} {data stop pos : Nat} {q : UInt8}
    (h : memchr mem { data := data, stop := stop } q = some pos) :
    ∃ u, q ∉ u ∧ pos = data + u.length ∧ Span.bytes mem { data := data, stop := stop }
      = u ++ q :: Span.bytes mem { data := pos + 1, stop := stop } := by
  obtain ⟨i, hi, rfl⟩ := Option.map_eq_some_iff.mp h
  obtain ⟨hlt, hq, hbefore⟩ := List.findIdx?_eq_some_iff_getElem.mp hi
  have hcut := List.take_append_drop i (Span.bytes mem { data := data, stop := stop })
  rw [List.drop_eq_getElem_cons hlt, beq_iff_eq.mp hq, bytes_drop] at hcut
  have hlen : (List.take i (Span.bytes mem { data := data, stop := stop })).length = i := by
    rw [List.length_take]
    omega
  refine ⟨_, fun hm => ?_, by rw [hlen], hcut.symm⟩
  obtain ⟨j, hj, hjq⟩ := List.getElem_of_mem hm
  rw [hlen] at hj
  rw [List.getElem_take] at hjq
  exact hbefore j hj (beq_iff_eq.mpr hjq)

theorem memchr_none {mem : Bytes} {buffer : Span} {q : UInt8} (h : memchr mem buffer q = none) :
    q ∉ buffer.bytes mem := by
  intro hm
  have hno := List.findIdx?_eq_none_iff.mp (Option.map_eq_none_iff.mp h) q hm
  rw [beq_self_eq_true] at hno
  cases hno

/-- **The loop over the pointer is the loop over the characters.** -/
theorem skipNodeRound_run {mem : Bytes} {stop : Nat} (hstop : stop ≤ mem.length) :
    ∀ {n data : Nat} {st : SkipState}, data ≤ stop → stop - data < n →
      WhileLoop.whileLoop (skipNodeRound mem stop) n (data, st)
        = some (skipNodeLoop st data (Span.bytes mem { data := data, stop := stop }))
  | 0, _, _, _, hn => absurd hn (Nat.not_lt_zero _)
  | n + 1, data, st, hle, hn => by
    rw [WhileLoop.whileLoop]
    by_cases hend : data = stop
    · subst hend
      have hbytes : Span.bytes mem { data := data, stop := data } = [] := by simp [Span.bytes]
      rw [hbytes]
      simp [skipNodeRound, skipNodeLoop]
    · -- there is a character
      have hlt : data < mem.length := by omega
      have hcons : Span.bytes mem { data := data, stop := stop }
          = mem[data] :: Span.bytes mem { data := data + 1, stop := stop } := by
        obtain ⟨k, hk⟩ : ∃ k, stop - data = k + 1 := ⟨stop - data - 1, by omega⟩
        have hk' : stop - (data + 1) = k := by omega
        unfold Span.bytes
        dsimp only
        rw [hk, hk', List.drop_eq_getElem_cons hlt, List.take_succ_cons]
      have hget : mem[data]? = some mem[data] := List.getElem?_eq_getElem hlt
      have ih : ∀ pos st', data < pos → pos ≤ stop →
          WhileLoop.whileLoop (skipNodeRound mem stop) n (pos, st')
            = some (skipNodeLoop st' pos (Span.bytes mem { data := pos, stop := stop })) :=
        fun pos st' hpos hle => skipNodeRound_run hstop hle (by omega)
      have hnext := fun st' => ih (data + 1) st' (Nat.lt_succ_self _) (by omega)
      generalize WhileLoop.whileLoop (skipNodeRound mem stop) n = loop at ih hnext ⊢
      obtain ⟨level, tag, closing, quote⟩ := st
      cases quote with
      | some q =>
        cases hfind : memchr mem { data := data, stop := stop } q with
        | some pos =>
          -- the stretch ends at `pos`
          obtain ⟨u, hu, rfl, hbytes⟩ := memchr_some hfind
          have hpos : data + u.length + 1 ≤ stop := by
            have hlen := congrArg List.length hbytes
            rw [Span.length_bytes hstop, List.length_append, List.length_cons] at hlen
            dsimp only at hlen
            omega
          have hquoted := @skipNodeLoop_quoted q ⟨level, tag, closing, none⟩
            (Span.bytes mem { data := data + u.length + 1, stop := stop }) u data hu
          unfold skipNodeRound
          simp only [hend, if_false, hfind]
          rw [hbytes, hquoted]
          exact ih _ _ (by omega) hpos
        | none =>
          have hquoted := @skipNodeLoop_unquoted q ⟨level, tag, closing, none⟩ _ data
            (memchr_none hfind)
          have hlast := ih stop ⟨level, tag, closing, some q⟩ (by omega) (Nat.le_refl _)
          have hpos : stop - 1 + 1 = stop := by omega
          have hempty : Span.bytes mem { data := stop, stop := stop } = [] := by simp [Span.bytes]
          unfold skipNodeRound
          simp only [hend, if_false, hfind]
          rw [hpos, hlast, hquoted, hempty]
          rfl
      | none =>
        rw [hcons]
        generalize mem[data] = c at hget
        unfold skipNodeRound
        simp only [hend, if_false, hget]
        rw [skipNodeLoop]
        dsimp only
        by_cases hlt : (c == ch '<') = true
        · simp only [hlt, if_true]
          exact hnext _
        by_cases hslash : (c == ch '/') = true
        · simp only [hlt, hslash, if_true]
          exact hnext _
        by_cases hgt : (c == ch '>') = true
        · simp only [hlt, hslash, hgt, if_true]
          cases tag with
          | false => exact hnext _
          | true =>
            cases closing with
            | none => exact hnext _
            | some closing =>
              dsimp only
              by_cases hlevel : closeTag ⟨level, true, some closing, none⟩ data closing = 0
              · simp only [hlevel, if_true, Bool.false_eq_true, if_false]
              · simp only [hlevel, if_false]
                exact hnext _
        by_cases hquote : (c == quote2 || c == quote1) = true
        · simp only [hlt, hslash, hgt, hquote, if_true]
          exact hnext _
        · simp only [hlt, hslash, hgt, hquote]
          exact hnext _

/-- What `xmlfsm_skip_node` returns, and the data pointer after it. -/
theorem skipNodeData_eq {mem : Bytes} {buffer : Span} (hle : buffer.data ≤ buffer.stop)
    (hstop : buffer.stop ≤ mem.length) : xmlfsmSkipNodeData mem buffer
      = (xmlfsmSkipNode mem buffer).map (fun found => (found.isSome, found.getD buffer.data)) := by
  have hrun := @skipNodeRound_run mem buffer.stop hstop (rounds mem) buffer.data {} hle
    (by unfold rounds; omega)
  unfold xmlfsmSkipNodeData xmlfsmSkipNode
  rw [hrun, if_pos hle]
  cases skipNodeLoop {} buffer.data (Span.bytes mem buffer) <;> rfl

/-! ## Printed elements are whole -/

section Whole

variable {run : Bytes} {L : Int}

theorem printed_chars {rest : XmlContent} :
    (XmlContent.chars run rest).Printed ↔ Escaped run ∧ rest.Printed := by
  simp [XmlContent.Printed, XmlContent.tokens, XmlToken.Printed]

theorem printed_empty {tag : XmlTag} {rest : XmlContent} :
    (XmlContent.empty tag rest).Printed ↔ tag.Printed ∧ rest.Printed := by
  simp [XmlContent.Printed, XmlContent.tokens, XmlToken.Printed]

theorem printed_node {tag : XmlTag} {inner rest : XmlContent} {space : Bytes} :
    (XmlContent.node tag inner space rest).Printed ↔
      tag.Printed ∧ inner.Printed ∧ (∀ c ∈ space, whitespace c = true) ∧ rest.Printed := by
  constructor
  · intro h
    have hmem : ∀ token, token ∈ inner.tokens ∨ token = .stop tag.name space ∨
        token ∈ rest.tokens → token.Printed := by
      intro token ht
      refine h token ?_
      unfold XmlContent.tokens
      simp only [List.mem_cons, List.mem_append]
      exact .inr ht
    have hstop : (XmlToken.stop tag.name space).Printed := hmem _ (.inr (.inl rfl))
    exact ⟨h (.start tag) List.mem_cons_self, fun token ht => hmem token (.inl ht), hstop.2,
      fun token ht => hmem token (.inr (.inr ht))⟩
  · rintro ⟨htag, hinner, hspace, hrest⟩ token ht
    unfold XmlContent.tokens at ht
    simp only [List.mem_cons, List.mem_append] at ht
    rcases ht with rfl | ht | rfl | ht
    · exact htag
    · exact hinner token ht
    · exact ⟨htag.name, hspace⟩
    · exact hrest token ht

/-- **Inside of an element the level of the scan stays where it is**, or above. -/
theorem moves_content {content : XmlContent} (h : content.Printed) (hL : 0 < L) :
    Moves (between L none) (between L none) content.text := by
  induction content generalizing L with
  | nil => exact moves_nil _
  | chars run rest ih =>
    obtain ⟨hrun, hrest⟩ := printed_chars.mp h
    exact (moves_escaped hrun).append (ih hrest hL)
  | empty tag rest ih =>
    obtain ⟨htag, hrest⟩ := printed_empty.mp h
    exact ((closes_empty htag).moves hL).append (ih hrest hL)
  | node tag inner space rest ihinner ihrest =>
    obtain ⟨htag, hinner, hspace, hrest⟩ := printed_node.mp h
    have hstop := @closes_stop (L + 1) tag.name space htag.name hspace
    rw [Int.add_sub_cancel] at hstop
    have htext : (XmlContent.node tag inner space rest).text = (XmlToken.start tag).text ++
        (inner.text ++ ((XmlToken.stop tag.name space).text ++ rest.text)) := by
      simp [XmlContent.text, XmlContent.tokens]
    rw [htext]
    exact (passes_start htag).moves.append ((ihinner hinner (by omega)).append
      ((hstop.moves hL).append (ihrest hrest hL)))

/-- The tag that an element begins with. -/
def XmlElement.tag : XmlElement → XmlTag
  | .empty tag => tag
  | .node tag _ _ => tag

theorem XmlElement.printed_content {element : XmlElement} :
    element.content.Printed ↔ element.Printed := by
  cases element <;> exact Iff.rfl

/-- **An element is a whole node, with the character data before it.** -/
theorem XmlElement.Printed.whole {element : XmlElement} (h : element.Printed) (hrun : Escaped run) :
    WholeNode (run ++ element.text) := by
  rw [← printed_content] at h
  cases element with
  | empty tag =>
    obtain ⟨htag, -⟩ := printed_empty.mp h
    have htext : (XmlElement.empty tag).text = (XmlToken.empty tag).text := by
      simp [XmlElement.text, XmlElement.front, XmlElement.last]
    rw [htext]
    exact wholeNode_of_moves (moves_escaped hrun) (closes_empty htag).skip
  | node tag inner space =>
    obtain ⟨htag, hinner, hspace, -⟩ := printed_node.mp h
    have hfront : Moves (between 0 none) (between 1 none)
        (run ++ ((XmlToken.start tag).text ++ inner.text)) :=
      (moves_escaped hrun).append ((passes_start htag).moves.append
        (moves_content hinner Int.one_pos))
    have hstop := @closes_stop 1 tag.name space htag.name hspace
    have htext : run ++ (XmlElement.node tag inner space).text = run ++ ((XmlToken.start tag).text ++
        inner.text) ++ (XmlToken.stop tag.name space).text := by
      simp [XmlElement.text, XmlElement.front, XmlElement.last, XmlContent.text]
    rw [htext]
    exact wholeNode_of_moves hfront hstop.skip

/-- There is no node in what is left of a document. -/
theorem skip_escaped (hrun : Escaped run) : skipNodeLoop {} 0 (run ++ []) = none := by
  rw [List.append_nil, skipNodeLoop_text]
  exact (@moves_escaped 0 run hrun).skip_none

/-- There is none in the end tag of a parent either. -/
theorem skip_stop {name space : Bytes} (hname : name ≠ [] ∧ name.all nameChar = true)
    (hspace : ∀ c ∈ space, whitespace c = true) (hrun : Escaped run) :
    skipNodeLoop {} 0 (run ++ (XmlToken.stop name space).text) = none := by
  obtain ⟨hlevels, -⟩ := (@closes_stop 0 name space hname hspace).scan
  have hafter : TextScan.after {} run = between 0 none := (@moves_escaped 0 run hrun).1
  have hnone : TextScan.skip {} run = none := (@moves_escaped 0 run hrun).skip_none
  rw [skipNodeLoop_text]
  refine skip_eq_none_iff.mpr fun hzero => ?_
  rw [levels_append, hafter, hlevels] at hzero
  rcases List.mem_append.mp hzero with hzero | hzero
  · exact skip_eq_none_iff.mp hnone hzero
  · revert hzero
    decide

end Whole

/-! ## What is read -/

/--
The calls of `xmlfsm_next_attr` from a position on find these attributes, with these names and
values, then the end of the start tag.
-/
inductive AttrsRead (mem : Bytes) : Nat → List AttrText → AttrState → Nat → Prop
  | done {data next : Nat} {state : AttrState} (h : xmlfsmNextAttr mem data = some (state, next))
      (hend : state = .empty ∨ state = .noattr) : AttrsRead mem data [] state next
  | next {data next last : Nat} {attr : XmlAttr} {a : AttrText} {attrs : List AttrText}
      {state : AttrState} (h : xmlfsmNextAttr mem data = some (.success attr, next))
      (hname : SpanIs mem attr.name a.name) (hvalue : SpanIs mem attr.value a.value)
      (ht : AttrsRead mem next attrs state last) : AttrsRead mem data (a :: attrs) state last

/--
What `xmlfsm_next_sibling` has found is the element, from the place where it began to look on, with
the character data before the element.
-/
structure FoundNode (mem : Bytes) (buffer : Span) (run : Bytes) (element : XmlElement)
    (nodes : XmlNodeTraverser) : Prop where
  start : nodes.nodeStart = buffer.data
  extent : SpanIs mem nodes.extent (run ++ element.text)
  nameStart : nodes.nodeName.data = buffer.data + run.length + 1
  name : SpanIs mem nodes.nodeName element.tag.name
  inside : nodes.node.data = nodes.nodeName.stop
  left : nodes.buffer = { data := nodes.node.stop, stop := buffer.stop }

/--
The calls of `xmlfsm_next_sibling` on a buffer find exactly the elements of a content, in their
order, with their names and extents, and then no more. In each of them `xmlfsm_next_attr` finds
exactly its attributes, then whether it has content, and if it has, the calls on what follows find
that. `run` is character data that stands before the content.
-/
inductive ContentRead (mem : Bytes) : Span → Bytes → XmlContent → Prop
  | nil {buffer : Span} {run : Bytes} (h : xmlfsmNextSibling mem buffer = some none) :
      ContentRead mem buffer run .nil
  | chars {buffer : Span} {run text : Bytes} {rest : XmlContent}
      (h : ContentRead mem buffer (run ++ text) rest) : ContentRead mem buffer run (.chars text rest)
  | empty {buffer : Span} {run : Bytes} {tag : XmlTag} {rest : XmlContent}
      {nodes : XmlNodeTraverser} (h : xmlfsmNextSibling mem buffer = some (some nodes))
      (hfound : FoundNode mem buffer run (.empty tag) nodes)
      (hattrs : AttrsRead mem nodes.node.data tag.attrs .empty nodes.node.stop)
      (ht : ContentRead mem nodes.buffer [] rest) : ContentRead mem buffer run (.empty tag rest)
  | node {buffer : Span} {run space : Bytes} {tag : XmlTag} {inner rest : XmlContent}
      {nodes : XmlNodeTraverser} {inside : Nat}
      (h : xmlfsmNextSibling mem buffer = some (some nodes))
      (hfound : FoundNode mem buffer run (.node tag inner space) nodes)
      (hattrs : AttrsRead mem nodes.node.data tag.attrs .noattr inside)
      (hinner : ContentRead mem { data := inside, stop := nodes.node.stop } [] inner)
      (ht : ContentRead mem nodes.buffer [] rest) :
      ContentRead mem buffer run (.node tag inner space rest)

section Read

variable {mem run tail rest : Bytes} {data k : Nat}

/-- **The attributes are found where they stand**, if the start tag ends behind them. -/
theorem attrsRead_text {state : AttrState} {next : Nat} (hend : state = .empty ∨ state = .noattr) :
    ∀ {attrs : List AttrText} {data : Nat}, (∀ a ∈ attrs, a.Printed) →
      mem.drop data = attrsText attrs ++ rest →
      xmlfsmNextAttr mem (data + (attrsText attrs).length) = some (state, next) →
      AttrsRead mem data attrs state next
  | [], _, _, _, hnext => .done hnext hend
  | a :: attrs, data, h, hmem, hnext => by
    have htext : attrsText (a :: attrs) = a.text ++ attrsText attrs := rfl
    rw [htext, List.append_assoc] at hmem
    rw [htext, List.length_append, ← Nat.add_assoc] at hnext
    exact .next ((h a List.mem_cons_self).scannable.nextAttr hmem) (spanIs_name hmem)
      (spanIs_value hmem) (attrsRead_text hend (fun b hb => h b (List.mem_cons_of_mem _ hb))
        (drop_add_of_drop hmem) hnext)

/-- The text of an element from its name on. -/
theorem XmlElement.text_empty (tag : XmlTag) : (XmlElement.empty tag).text =
    ch '<' :: (tag.name ++ (attrsText tag.attrs ++ (tag.space ++ ch '/' :: [ch '>']))) := by
  have hend : lit "/>" = [ch '/', ch '>'] := rfl
  simp [XmlElement.text, XmlElement.front, XmlElement.last, XmlToken.text, XmlTag.text, hend]

theorem XmlElement.text_node (tag : XmlTag) (inner : XmlContent) (space : Bytes) :
    (XmlElement.node tag inner space).text = ch '<' :: (tag.name ++ (attrsText tag.attrs ++
      (tag.space ++ ch '>' :: (inner.text ++ (XmlToken.stop tag.name space).text)))) := by
  have hgt : lit ">" = [ch '>'] := rfl
  simp [XmlElement.text, XmlElement.front, XmlElement.last, XmlToken.text, XmlTag.text,
    XmlContent.text, hgt]

theorem XmlElement.Printed.tag {element : XmlElement} (h : element.Printed) :
    element.tag.Printed := by
  rw [← XmlElement.printed_content] at h
  cases element with
  | empty tag => exact (printed_empty.mp h).1
  | node tag inner space => exact (printed_node.mp h).1

/-- A name ends where the attributes begin, or the tag ends. -/
theorem XmlTag.Printed.after_name {tag : XmlTag} (h : tag.Printed) {c : UInt8} {rest : Bytes}
    (hc : c = ch '/' ∨ c = ch '>') : ∃ d body,
      attrsText tag.attrs ++ (tag.space ++ c :: rest) = d :: body ∧ nodeNameChar d = false := by
  have hwhite : ∀ d, whitespace d = true → nodeNameChar d = false := by
    intro d hd
    simp [nodeNameChar, hd]
  cases hattrs : tag.attrs with
  | nil =>
    cases hspace : tag.space with
    | nil =>
      refine ⟨c, rest, rfl, ?_⟩
      rcases hc with rfl | rfl <;> decide
    | cons d space =>
      exact ⟨d, space ++ c :: rest, rfl, hwhite d (h.space d (hspace ▸ List.mem_cons_self))⟩
  | cons a attrs =>
    have ha := h.attrs a (hattrs ▸ List.mem_cons_self)
    obtain ⟨d, lead, hlead⟩ := List.exists_cons_of_ne_nil ha.lead.1
    refine ⟨d, lead ++ (a.name ++ a.rest) ++ attrsText attrs ++ (tag.space ++ c :: rest), ?_,
      hwhite d (ha.lead.2 d (hlead ▸ List.mem_cons_self))⟩
    rw [attrsText_cons, AttrText.text, hlead]
    simp

theorem XmlElement.Printed.led {element : XmlElement} (h : element.Printed) (hrun : Escaped run) :
    LedNode run element.tag.name element.text where
  whole := h.whole hrun
  run := fun hm => (hrun.char hm).1 rfl
  chars := by
    refine List.all_eq_true.mpr fun c hc => ?_
    obtain ⟨hwhite, hmark⟩ := not_mem_of_nameChar (List.all_eq_true.mp h.tag.name.2 c hc)
    have hgt : c ≠ ch '>' := fun he => hmark (he ▸ by decide)
    have hslash : c ≠ ch '/' := fun he => hmark (he ▸ by decide)
    simp [nodeNameChar, hwhite, hgt, hslash]
  start := by
    cases element with
    | empty tag =>
      obtain ⟨d, body, hafter, hd⟩ := @XmlTag.Printed.after_name tag h.tag (ch '/') [ch '>'] (.inl rfl)
      exact ⟨d, body, by rw [XmlElement.text_empty, hafter]; rfl, hd⟩
    | node tag inner space =>
      obtain ⟨d, body, hafter, hd⟩ := @XmlTag.Printed.after_name tag h.tag (ch '>')
        (inner.text ++ (XmlToken.stop tag.name space).text) (.inr rfl)
      exact ⟨d, body, by rw [XmlElement.text_node, hafter]; rfl, hd⟩

/-- **An element is found where it stands**, with the character data before it. -/
theorem foundNode {element : XmlElement} {stop : Nat} (h : element.Printed) (hrun : Escaped run)
    (hmem : mem.drop k = run ++ (element.text ++ rest))
    (hstop : k + run.length + element.text.length ≤ stop) :
    xmlfsmNextSibling mem { data := k, stop := stop }
        = some (some (ledNodeAt run element.tag.name element.text k stop)) ∧
      FoundNode mem { data := k, stop := stop } run element
        (ledNodeAt run element.tag.name element.text k stop) := by
  have hled := h.led hrun
  have hextent := @spanIs_of_drop mem (run ++ element.text) rest k (by rw [hmem, List.append_assoc])
  rw [List.length_append, ← Nat.add_assoc] at hextent
  exact ⟨hled.nextSibling hmem hstop, rfl, hextent, rfl, hled.spanIs_name hmem, rfl, rfl⟩

/-- The attributes of a tag are read, and where it ends. -/
theorem attrsRead_tag {tag : XmlTag} {c : UInt8} {text : Bytes} {state : AttrState} {d : Nat}
    (h : tag.Printed) (hmem : mem.drop k = tag.name ++ (attrsText tag.attrs ++
      (tag.space ++ c :: text)))
    (hc : c = ch '/' ∧ state = .empty ∧ d = 2 ∨ c = ch '>' ∧ state = .noattr ∧ d = 1) :
    AttrsRead mem (k + tag.name.length) tag.attrs state
      (k + tag.name.length + (attrsText tag.attrs).length + tag.space.length + d) := by
  have hattrs := drop_add_of_drop hmem
  have hnext := @nextAttr_of_end mem tag.space text _ c (drop_add_of_drop hattrs) h.space
    (by rcases hc with ⟨hc, -⟩ | ⟨hc, -⟩ <;> simp [hc])
  rcases hc with ⟨rfl, rfl, rfl⟩ | ⟨rfl, rfl, rfl⟩
  · exact attrsRead_text (.inl rfl) h.attrs hattrs hnext
  · exact attrsRead_text (.inr rfl) h.attrs hattrs hnext

/--
**The content is read as it is printed.** The character data before it is escaped, and behind it
there is a tail in which no node ends.
-/
theorem contentRead_text {content : XmlContent} (h : content.Printed) {stop : Nat} :
    ∀ {k : Nat} {run tail rest : Bytes}, Escaped run →
      (∀ run, Escaped run → skipNodeLoop {} 0 (run ++ tail) = none) →
      mem.drop k = run ++ (content.text ++ (tail ++ rest)) →
      stop = k + run.length + content.text.length + tail.length →
      ContentRead mem { data := k, stop := stop } run content := by
  -- on the content; character data is collected for the next element
  induction content generalizing stop with
  | nil =>
    intro k run tail rest hrun htail hmem hstop
    have hend : stop = k + (run ++ tail).length := by
      rw [List.length_append, hstop, ← Nat.add_assoc]
      rfl
    rw [hend]
    refine .nil (@nextSibling_none mem rest (run ++ tail) k (htail run hrun) ?_)
    rw [hmem, List.append_assoc]
    rfl
  | chars text content ih =>
    intro k run tail rest hrun htail hmem hstop
    obtain ⟨htext, hcontent⟩ := printed_chars.mp h
    have hchars : (XmlContent.chars text content).text = text ++ content.text := rfl
    rw [hchars] at hmem hstop
    refine .chars (@ih hcontent stop k (run ++ text) tail rest (hrun.append htext) htail ?_ ?_)
    · rw [hmem]
      simp
    · rw [hstop]
      simp only [List.length_append]
      omega
  | empty tag content ih =>
    intro k run tail rest hrun htail hmem hstop
    obtain ⟨htag, hcontent⟩ := printed_empty.mp h
    have helement : (XmlElement.empty tag).Printed :=
      XmlElement.printed_content.mp (printed_empty.mpr ⟨htag, fun _ ht => absurd ht List.not_mem_nil⟩)
    have htext : (XmlContent.empty tag content).text
        = (XmlElement.empty tag).text ++ content.text := by
      simp [XmlContent.text, XmlContent.tokens, XmlElement.text, XmlElement.front, XmlElement.last]
    rw [htext] at hmem hstop
    rw [List.append_assoc] at hmem
    rw [List.length_append] at hstop
    obtain ⟨hnext, hfound⟩ := @foundNode mem run (content.text ++ (tail ++ rest)) k _ stop helement
      hrun hmem (by omega)
    have hname : mem.drop (k + run.length + 1) = tag.name ++ (attrsText tag.attrs ++
        (tag.space ++ ch '/' :: ch '>' :: (content.text ++ (tail ++ rest)))) := by
      refine @drop_succ_of_drop mem _ (k + run.length) (ch '<') ?_
      rw [drop_add_of_drop hmem, XmlElement.text_empty]
      simp
    have hattrs := attrsRead_tag htag hname (.inl ⟨rfl, rfl, rfl⟩)
    have hend : k + run.length + 1 + tag.name.length + (attrsText tag.attrs).length +
        tag.space.length + 2 = k + run.length + (XmlElement.empty tag).text.length := by
      rw [XmlElement.text_empty]
      simp only [List.length_cons, List.length_append, List.length_nil]
      omega
    rw [hend] at hattrs
    refine .empty hnext hfound hattrs ?_
    refine @ih hcontent stop (k + run.length + (XmlElement.empty tag).text.length) [] tail rest rfl
      htail ?_ ?_
    · exact drop_add_of_drop (drop_add_of_drop hmem)
    · rw [hstop, List.length_nil]
      omega
  | node tag inner space content ihinner ih =>
    intro k run tail rest hrun htail hmem hstop
    obtain ⟨htag, hinner, hspace, hcontent⟩ := printed_node.mp h
    have helement : (XmlElement.node tag inner space).Printed := XmlElement.printed_content.mp
      (printed_node.mpr ⟨htag, hinner, hspace, fun _ ht => absurd ht List.not_mem_nil⟩)
    have htext : (XmlContent.node tag inner space content).text
        = (XmlElement.node tag inner space).text ++ content.text := by
      simp [XmlContent.text, XmlContent.tokens, XmlElement.text, XmlElement.front, XmlElement.last]
    rw [htext] at hmem hstop
    rw [List.append_assoc] at hmem
    rw [List.length_append] at hstop
    obtain ⟨hnext, hfound⟩ := @foundNode mem run (content.text ++ (tail ++ rest)) k _ stop helement
      hrun hmem (by omega)
    have hname : mem.drop (k + run.length + 1) = tag.name ++ (attrsText tag.attrs ++
        (tag.space ++ ch '>' :: (inner.text ++ ((XmlToken.stop tag.name space).text ++
          (content.text ++ (tail ++ rest)))))) := by
      refine @drop_succ_of_drop mem _ (k + run.length) (ch '<') ?_
      rw [drop_add_of_drop hmem, XmlElement.text_node]
      simp
    have hattrs := attrsRead_tag htag hname (.inr ⟨rfl, rfl, rfl⟩)
    have hinside := drop_succ_of_drop (drop_add_of_drop (drop_add_of_drop (drop_add_of_drop hname)))
    have hend : k + run.length + (XmlElement.node tag inner space).text.length
        = k + run.length + 1 + tag.name.length + (attrsText tag.attrs).length + tag.space.length
          + 1 + inner.text.length + (XmlToken.stop tag.name space).text.length := by
      rw [XmlElement.text_node]
      simp only [List.length_cons, List.length_append]
      omega
    refine .node hnext hfound hattrs ?_ ?_
    · -- the end tag is the tail of what is inside
      refine @ihinner hinner _ _ [] (XmlToken.stop tag.name space).text (content.text ++ (tail ++ rest))
        rfl (fun r hr => skip_stop htag.name hspace hr) hinside ?_
      show k + run.length + (XmlElement.node tag inner space).text.length = _
      rw [hend, List.length_nil, Nat.add_zero]
    · refine @ih hcontent stop (k + run.length + (XmlElement.node tag inner space).text.length) []
        tail rest rfl htail ?_ ?_
      · exact drop_add_of_drop (drop_add_of_drop hmem)
      · rw [hstop, List.length_nil]
        omega

end Read

/-! ## The document -/

/-- There is no whole node in a part of one. -/
theorem skipNodeLoop_take {node : Bytes} {n : Nat} (h : WholeNode node) (hn : n < node.length) :
    skipNodeLoop {} 0 (node.take n) = none := by
  cases hskip : skipNodeLoop {} 0 (node.take n) with
  | none => rfl
  | some stop =>
    obtain ⟨front, more, htake, -, hstop, hall⟩ := skipNodeLoop_split hskip
    have hnode : node = front ++ (more ++ node.drop n) := by
      rw [← List.append_assoc, ← htake, List.take_append_drop]
    have hwhole := hall (more ++ node.drop n)
    rw [← hnode] at hwhole
    have hlen := congrArg List.length htake
    rw [List.length_take, List.length_append] at hlen
    have hsame : some stop = some node.length := hwhole.symm.trans h
    have hlast := Option.some.inj hsame
    omega

/--
**A traversal recovers the document.** For every printed element, in a memory block that ends with
its text: the calls of the scanning functions find the element, and in it its attributes, its
children and everything inside of them, and nothing else, and none of them leaves the block. On
every proper prefix of the text `xmlfsm_skip_node` fails and leaves the data pointer where it was.
-/
theorem traversal_recovers {element : XmlElement} (h : element.Printed) (before : Bytes) :
    ContentRead (before ++ element.text)
        { data := before.length, stop := (before ++ element.text).length } [] element.content ∧
      ∀ n < element.text.length, xmlfsmSkipNodeData (before ++ element.text.take n)
        { data := before.length, stop := before.length + n } = some (false, before.length) := by
  constructor
  · refine @contentRead_text _ _ (XmlElement.printed_content.mpr h) _ before.length [] [] [] rfl
      (fun run hrun => skip_escaped hrun) ?_ ?_
    · rw [XmlElement.text_content]
      simp
    · rw [XmlElement.text_content]
      simp
  · intro n hn
    have hwhole : WholeNode element.text := @XmlElement.Printed.whole [] element h rfl
    have hnone := skipNodeLoop_take hwhole hn
    have hlen : (before ++ element.text.take n).length = before.length + n := by
      rw [List.length_append, List.length_take, Nat.min_eq_left (Nat.le_of_lt hn)]
    have hskip := skipNode_text before (element.text.take n)
    rw [hlen, hnone] at hskip
    rw [skipNodeData_eq (Nat.le_add_right _ _) (Nat.le_of_eq hlen.symm), hskip]
    rfl

/-- `a b='<'`. -/
def markedTag : XmlTag where
  name := lit "a"
  attrs := [{ lead := lit " ", name := lit "b", gap := lit "=", quote := quote1, value := lit "<" }]
  space := []

/-- `<a b='<'>t<c/></a>`. -/
def nestedElement : XmlElement :=
  .node markedTag (.chars (lit "t") (.empty { name := lit "c", attrs := [], space := [] } .nil)) []

/-- A `<` in a value and a text before a child do no harm. -/
theorem traversal_recovers_nested : nestedElement.text = lit "<a b='<'>t<c/></a>" ∧
    ContentRead nestedElement.text { data := 0, stop := nestedElement.text.length } []
      nestedElement.content ∧
    xmlfsmSkipNodeData (nestedElement.text.take 13) { data := 0, stop := 0 + 13 }
      = some (false, 0) := by
  have hchild : XmlTag.Printed { name := lit "c", attrs := [], space := [] } :=
    ⟨by decide, fun _ ha => absurd ha List.not_mem_nil, fun _ hc => absurd hc List.not_mem_nil⟩
  have hnil : XmlContent.nil.Printed := fun _ ht => absurd ht List.not_mem_nil
  have htag : markedTag.Printed := by
    refine ⟨by decide, fun a ha => ?_, fun _ hc => absurd hc List.not_mem_nil⟩
    rw [List.mem_singleton.mp ha]
    refine ⟨⟨by decide, fun c hc => ?_⟩, by decide, ⟨[], [], ?_, rfl⟩, .inl rfl, by decide⟩
    · obtain rfl : c = ch ' ' := by simpa [lit] using hc
      rfl
    · intro c hc
      cases hc
  have hprinted : nestedElement.Printed := XmlElement.printed_content.mp (printed_node.mpr
    ⟨htag, printed_chars.mpr ⟨by decide, printed_empty.mpr ⟨hchild, hnil⟩⟩,
      fun _ hc => absurd hc List.not_mem_nil, hnil⟩)
  obtain ⟨hread, hprefix⟩ := traversal_recovers hprinted []
  exact ⟨by decide, hread, hprefix 13 (by decide)⟩

end Mukite
