import Mukite.Properties.HeaderText
import Mukite.Properties.Siblings

/-!
# Reading nodes that are given as texts

A loop over siblings, and the reading of one attribute, where it is known what text stands in the
memory: nodes one after the other with a tail behind them in which there is none (`Turns`), and
the attributes of a start tag (`skiptoAttr_text`). What a loop makes of its state is then a fold
over the texts (`siblingLoop_turns`), wherever in a memory block they stand.
-/

namespace Mukite

open WhileLoop

/-! ## Spans -/

/-- A span holds the given bytes. -/
structure SpanIs (mem : Bytes) (s : Span) (b : Bytes) : Prop where
  bytes : s.bytes mem = b
  size : s.size = b.length

section SpanIs

variable {mem b rest : Bytes} {s : Span} {k : Nat}

theorem spanIs_of_drop (h : mem.drop k = b ++ rest) :
    SpanIs mem { data := k, stop := k + b.length } b where
  bytes := by
    show (mem.drop k).take (k + b.length - k) = b
    rw [h, Nat.add_sub_cancel_left, List.take_left]
  size := by
    show ((k + b.length : Nat) : Int) - (k : Int) = b.length
    omega

theorem SpanIs.eqLit (h : SpanIs mem s b) (literal : String) :
    s.eqLit mem literal = (b == lit literal) := by
  unfold Span.eqLit Span.eqBin
  rw [h.bytes, h.size]
  cases hb : b == lit literal with
  | false => rw [Bool.and_false]
  | true =>
    rw [eq_of_beq hb, Bool.and_true]
    exact beq_self_eq_true _

theorem SpanIs.copy (h : SpanIs mem s b) : s.copy mem = some b := by
  have hsize := h.size
  unfold Span.size at hsize
  unfold Span.copy
  rw [if_neg (by omega), h.bytes]

theorem SpanIs.btoi (h : SpanIs mem s b) : btoi mem s = if 21 ≤ b.length then 0 else atoi b := by
  unfold Mukite.btoi
  rw [h.bytes, h.size]
  by_cases hlong : 21 ≤ b.length
  · rw [if_pos hlong]
    refine if_pos ?_
    simp only [Bool.or_eq_true, decide_eq_true_eq]
    omega
  · rw [if_neg hlong]
    refine if_neg ?_
    simp only [Bool.or_eq_true, decide_eq_true_eq]
    omega

end SpanIs

/-! ## The parts of an attribute -/

section Parts

variable {mem rest : Bytes} {data : Nat} {a : AttrText}

theorem spanIs_name (hmem : mem.drop data = a.text ++ rest) :
    SpanIs mem (a.spans data).name a.name where
  bytes := name_bytes_spans hmem
  size := by
    unfold Span.size AttrText.spans
    dsimp only
    omega

theorem spanIs_value (hmem : mem.drop data = a.text ++ rest) :
    SpanIs mem (a.spans data).value a.value where
  bytes := value_bytes_spans hmem
  size := by
    unfold Span.size AttrText.spans
    dsimp only
    omega

end Parts

/-! ## The name of a node -/

/-- A character that does not end the name of a node. -/
def nodeNameChar (c : UInt8) : Bool := !whitespace c && c != ch '>' && c != ch '/'

/-- A node with a name, and character data before it. -/
structure LedNode (run name text : Bytes) : Prop where
  whole : WholeNode (run ++ text)
  run : ch '<' ∉ run
  chars : name.all nodeNameChar = true
  start : ∃ c body, text = ch '<' :: (name ++ c :: body) ∧ nodeNameChar c = false

/-- What a traversal finds where such a node stands, in a buffer from `k` to `stop`. -/
def ledNodeAt (run name text : Bytes) (k stop : Nat) : XmlNodeTraverser where
  buffer := { data := k + run.length + text.length, stop := stop }
  node := { data := k + run.length + 1 + name.length, stop := k + run.length + text.length }
  nodeName := { data := k + run.length + 1, stop := k + run.length + 1 + name.length }
  nodeStart := k

/-- A node with a name. -/
structure NamedNode (name text : Bytes) : Prop where
  whole : WholeNode text
  chars : name.all nodeNameChar = true
  start : ∃ c body, text = ch '<' :: (name ++ c :: body) ∧ nodeNameChar c = false

/-- What a traversal finds where a node stands at `k`, in a buffer that ends at `stop`. -/
def nodeAt (name text : Bytes) (k stop : Nat) : XmlNodeTraverser where
  buffer := { data := k + text.length, stop := stop }
  node := { data := k + 1 + name.length, stop := k + text.length }
  nodeName := { data := k + 1, stop := k + 1 + name.length }
  nodeStart := k

section Nodes

variable {mem run name text rest tail : Bytes} {k stop : Nat}

theorem bytes_front (hmem : mem.drop k = text ++ rest) (hstop : k + text.length ≤ stop) :
    Span.bytes mem { data := k, stop := stop } = text ++ rest.take (stop - (k + text.length)) := by
  show (mem.drop k).take (stop - k) = _
  rw [hmem, List.take_append, List.take_of_length_le (by omega)]
  congr 2
  omega

/-- The name of a node is behind its first `<`. -/
theorem LedNode.drop_name (h : LedNode run name text) (hmem : mem.drop k = run ++ (text ++ rest)) :
    ∃ c body, mem.drop (k + run.length + 1) = name ++ c :: body ∧ nodeNameChar c = false := by
  obtain ⟨c, body, htext, hc⟩ := h.start
  refine ⟨c, body ++ rest, drop_succ_of_drop (c := ch '<') ?_, hc⟩
  rw [drop_add_of_drop hmem, htext]
  simp

/-- **A node is found behind the character data that stands before it.** -/
theorem LedNode.nextSibling (h : LedNode run name text) (hmem : mem.drop k = run ++ (text ++ rest))
    (hstop : k + run.length + text.length ≤ stop) : xmlfsmNextSibling mem { data := k, stop := stop }
      = some (some (ledNodeAt run name text k stop)) := by
  have hwhole : mem.drop k = (run ++ text) ++ rest := by rw [hmem, List.append_assoc]
  have hlen : k + (run ++ text).length = k + run.length + text.length := by
    rw [List.length_append, Nat.add_assoc]
  have hskip : xmlfsmSkipNode mem { data := k, stop := stop }
      = some (some (k + run.length + text.length)) := by
    unfold xmlfsmSkipNode
    dsimp only
    rw [if_pos (by omega), bytes_front hwhole (by omega), skipNodeLoop_from, h.whole.append,
      Option.map_some, Nat.add_comm, hlen]
  have hname : xmlfsmNodeName mem { data := k, stop := k + run.length + text.length }
      = some ({ data := k + run.length + 1, stop := k + run.length + 1 + name.length },
        k + run.length + 1 + name.length) := by
    obtain ⟨c, body, hafter, hc⟩ := h.drop_name hmem
    have hskipped : skip nodeNameChar (mem.drop (k + run.length + 1)) = some name.length := by
      rw [hafter]
      exact skip_append hc (List.all_eq_true.mp h.chars)
    have hlt : (Span.bytes mem { data := k, stop := k + run.length + text.length }).findIdx?
        (· == ch '<') = some run.length := by
      obtain ⟨d, front, htext, -⟩ := h.start
      have hno : run.findIdx? (· == ch '<') = none := by
        refine List.findIdx?_eq_none_iff.mpr fun x hx => ?_
        exact beq_eq_false_iff_ne.mpr fun he => h.run (he ▸ hx)
      rw [← hlen, bytes_front hwhole (Nat.le_refl _), List.append_assoc, List.findIdx?_append, hno,
        htext]
      simp [List.findIdx?_cons]
    unfold xmlfsmNodeName
    rw [hlt]
    show (skip nodeNameChar (mem.drop (k + run.length + 1))).bind _ = _
    rw [hskipped]
    rfl
  unfold xmlfsmNextSibling
  rw [hskip]
  show (xmlfsmNodeName mem { data := k, stop := k + run.length + text.length }).bind _ = _
  rw [hname]
  rfl

/-- The name that is read there. -/
theorem LedNode.spanIs_name (h : LedNode run name text)
    (hmem : mem.drop k = run ++ (text ++ rest)) :
    SpanIs mem (ledNodeAt run name text k stop).nodeName name := by
  obtain ⟨c, body, hafter, -⟩ := h.drop_name hmem
  exact spanIs_of_drop hafter

theorem NamedNode.led (h : NamedNode name text) : LedNode [] name text :=
  ⟨h.whole, List.not_mem_nil, h.chars, h.start⟩

/-- **A node is found where it stands.** -/
theorem NamedNode.nextSibling (h : NamedNode name text) (hmem : mem.drop k = text ++ rest)
    (hstop : k + text.length ≤ stop) :
    xmlfsmNextSibling mem { data := k, stop := stop } = some (some (nodeAt name text k stop)) :=
  h.led.nextSibling hmem hstop

theorem NamedNode.reads_name (h : NamedNode name text) (hmem : mem.drop k = text ++ rest) :
    SpanIs mem (nodeAt name text k stop).nodeName name :=
  @LedNode.spanIs_name mem [] name text rest k stop h.led hmem

/-- No node is found at the end of a buffer without one. -/
theorem nextSibling_none (htail : skipNodeLoop {} 0 tail = none)
    (hmem : mem.drop k = tail ++ rest) :
    xmlfsmNextSibling mem { data := k, stop := k + tail.length } = some none := by
  have hbytes : Span.bytes mem { data := k, stop := k + tail.length } = tail :=
    (spanIs_of_drop hmem).bytes
  unfold xmlfsmNextSibling xmlfsmSkipNode
  dsimp only
  rw [if_pos (Nat.le_add_right _ _), hbytes, skipNodeLoop_from, htail]
  rfl

end Nodes

/-! ## Loops -/

section Loops

variable {σ : Type} {mem : Bytes} {body : σ → XmlNodeTraverser → Option (σ ⊕ Empty)}

/--
The turn of a loop at a node with the text `item.1`: wherever it stands, it is found, and the
body does `item.2` to the state.
-/
def Turns (mem : Bytes) (body : σ → XmlNodeTraverser → Option (σ ⊕ Empty))
    (item : Bytes × (σ → Option σ)) : Prop :=
  0 < item.1.length ∧ ∀ k stop rest s, mem.drop k = item.1 ++ rest → k + item.1.length ≤ stop →
    ∃ nodes, xmlfsmNextSibling mem { data := k, stop := stop } = some (some nodes) ∧
      nodes.buffer = { data := k + item.1.length, stop := stop } ∧
      body s nodes = (item.2 s).map .inl

/-- The texts of the nodes, one after the other. -/
def turnsText (items : List (Bytes × (σ → Option σ))) : Bytes := (items.map Prod.fst).flatten

/-- The turns of a loop, one after the other. -/
def runTurns (items : List (Bytes × (σ → Option σ))) (s : σ) : Option σ :=
  items.foldlM (fun s item => item.2 s) s

theorem length_le_turnsText : ∀ {items : List (Bytes × (σ → Option σ))},
    (∀ item ∈ items, Turns mem body item) → items.length ≤ (turnsText items).length
  | [], _ => Nat.zero_le _
  | item :: items, h => by
    have hpos := (h item List.mem_cons_self).1
    have ih := length_le_turnsText fun i hi => h i (List.mem_cons_of_mem _ hi)
    unfold turnsText at ih ⊢
    rw [List.map_cons, List.flatten_cons, List.length_append, List.length_cons]
    omega

/-- A loop goes round at a node if its body does, and leaves where there is none. -/
structure SiblingRounds (mem : Bytes) (body : σ → XmlNodeTraverser → Option (σ ⊕ Empty))
    (loop : Span × σ → Option ((Span × σ) ⊕ (σ ⊕ Empty))) : Prop where
  go : ∀ buffer s nodes s', xmlfsmNextSibling mem buffer = some (some nodes) →
    body s nodes = some (.inl s') → loop (buffer, s) = some (.inl (nodes.buffer, s'))
  leave : ∀ buffer s, xmlfsmNextSibling mem buffer = some none →
    loop (buffer, s) = some (.inr (.inl s))

/-- The rounds of a loop, as many as there are nodes and one more. -/
theorem SiblingRounds.run {loop : Span × σ → Option ((Span × σ) ⊕ (σ ⊕ Empty))}
    (hloop : SiblingRounds mem body loop) {tail rest : Bytes}
    (htail : skipNodeLoop {} 0 tail = none) :
    ∀ {items : List (Bytes × (σ → Option σ))} {n k : Nat} {s s' : σ},
    (∀ item ∈ items, Turns mem body item) → items.length < n →
    mem.drop k = turnsText items ++ (tail ++ rest) → runTurns items s = some s' →
    whileLoop loop n ({ data := k, stop := k + (turnsText items).length + tail.length }, s)
      = some (.inl s')
  | _, 0, _, _, _, _, hn, _, _ => absurd hn (Nat.not_lt_zero _)
  | [], n + 1, k, s, s', _, _, hmem, hrun => by
    obtain rfl : s = s' := Option.some.inj hrun
    have hstop : k + (turnsText ([] : List (Bytes × (σ → Option σ)))).length + tail.length
        = k + tail.length := rfl
    rw [whileLoop, hstop, hloop.leave _ _ (nextSibling_none htail hmem)]
  | item :: items, n + 1, k, s, s', h, hn, hmem, hrun => by
    have htext : turnsText (item :: items) = item.1 ++ turnsText items := rfl
    rw [htext, List.append_assoc] at hmem
    rw [List.length_cons] at hn
    unfold runTurns at hrun
    rw [List.foldlM_cons] at hrun
    obtain ⟨s₁, hs₁, hrun⟩ := Option.bind_eq_some_iff.mp hrun
    have hlen : k + (turnsText (item :: items)).length + tail.length
        = k + item.1.length + (turnsText items).length + tail.length := by
      rw [htext, List.length_append]
      omega
    obtain ⟨nodes, hnext, hbuffer, hbody⟩ := (h item List.mem_cons_self).2 k
      (k + item.1.length + (turnsText items).length + tail.length) _ s hmem (by omega)
    rw [hs₁] at hbody
    rw [whileLoop, hlen, hloop.go _ _ nodes s₁ hnext hbody, hbuffer]
    exact hloop.run htail (fun i hi => h i (List.mem_cons_of_mem _ hi))
      (Nat.lt_of_succ_lt_succ hn) (drop_add_of_drop hmem) hrun

/-- **A loop over nodes that are given as texts does what their turns do**, and ends. -/
theorem siblingLoop_turns {items : List (Bytes × (σ → Option σ))} {tail rest : Bytes} {k : Nat}
    {s s' : σ} (h : ∀ item ∈ items, Turns mem body item) (htail : skipNodeLoop {} 0 tail = none)
    (hmem : mem.drop k = turnsText items ++ (tail ++ rest)) (hrun : runTurns items s = some s') :
    siblingLoop mem body { data := k, stop := k + (turnsText items).length + tail.length } s
      = some (.inl s') := by
  have hshort : items.length < rounds mem := by
    have hle := length_le_turnsText h
    have hmemlen := congrArg List.length hmem
    rw [List.length_drop, List.length_append] at hmemlen
    unfold rounds
    omega
  unfold siblingLoop
  refine SiblingRounds.run ⟨?_, ?_⟩ htail h hshort hmem hrun
  · intro buffer s nodes s' hnext hbody
    simp [hnext, hbody]
  · intro buffer s hnext
    simp [hnext]

end Loops

/-! ## Attributes -/

section Attributes

variable {mem rest : Bytes} {data : Nat}

theorem length_le_attrsText : ∀ attrs : List AttrText, attrs.length ≤ (attrsText attrs).length
  | [] => Nat.zero_le _
  | a :: attrs => by
    have ih := length_le_attrsText attrs
    have htext : attrsText (a :: attrs) = a.text ++ attrsText attrs := rfl
    rw [htext, List.length_append, List.length_cons, AttrText.length_text]
    omega

/-- The start tag is left behind its `>`. -/
theorem skipAttrs_end (hmem : mem.drop data = ch '>' :: rest) :
    xmlfsmSkipAttrs mem data = some (true, data + 1) := by
  have hnext : xmlfsmNextAttr mem data = some (.noattr, data + 1) := by
    have hskip : skip whitespace (mem.drop data) = some 0 := by
      rw [hmem]
      rfl
    unfold xmlfsmNextAttr
    rw [hskip]
    show (mem[data + 0]?).bind _ = _
    rw [Nat.add_zero, getElem?_of_drop hmem]
    rfl
  unfold xmlfsmSkipAttrs attrLoop rounds
  rw [whileLoop]
  simp [hnext]

/-- A search goes round at an attribute of another name, and leaves at one of the name. -/
structure SearchRounds (mem : Bytes) (word : String)
    (loop : Nat × Unit → Option ((Nat × Unit) ⊕ ((AttrState × Nat × Unit) ⊕ (XmlAttr × Nat)))) :
    Prop where
  go : ∀ data attr next, xmlfsmNextAttr mem data = some (.success attr, next) →
    attr.name.eqLit mem word = false → loop (data, ()) = some (.inl (next, ()))
  leave : ∀ data attr next, xmlfsmNextAttr mem data = some (.success attr, next) →
    attr.name.eqLit mem word = true → loop (data, ()) = some (.inr (.inr (attr, next)))

/-- The rounds of the search for an attribute. -/
theorem SearchRounds.run {word : String}
    {loop : Nat × Unit → Option ((Nat × Unit) ⊕ ((AttrState × Nat × Unit) ⊕ (XmlAttr × Nat)))}
    (hloop : SearchRounds mem word loop) {a : AttrText} (ha : a.Scannable)
    (hname : a.name = lit word) : ∀ {attrs : List AttrText} {n data : Nat},
    (∀ b ∈ attrs, b.Scannable ∧ b.name ≠ lit word) → attrs.length < n →
    mem.drop data = attrsText attrs ++ (a.text ++ rest) →
    whileLoop loop n (data, ()) = some (.inr (a.spans (data + (attrsText attrs).length),
      data + (attrsText attrs).length + a.text.length))
  | _, 0, _, _, hn, _ => absurd hn (Nat.not_lt_zero _)
  | [], n + 1, data, _, _, hmem => by
    have hmem' : mem.drop data = a.text ++ rest := hmem
    rw [whileLoop, hloop.leave _ _ _ (ha.nextAttr hmem') ((eqLit_spans hmem').mpr hname)]
    rfl
  | b :: attrs, n + 1, data, h, hn, hmem => by
    obtain ⟨hb, hne⟩ := h b List.mem_cons_self
    have htext : attrsText (b :: attrs) = b.text ++ attrsText attrs := rfl
    rw [htext, List.append_assoc] at hmem
    have hlit : (b.spans data).name.eqLit mem word = false := by
      rw [← Bool.not_eq_true, eqLit_spans hmem]
      exact hne
    rw [whileLoop, hloop.go _ _ _ (hb.nextAttr hmem) hlit, htext, List.length_append,
      ← Nat.add_assoc]
    exact hloop.run ha hname (fun c hc => h c (List.mem_cons_of_mem _ hc))
      (Nat.lt_of_succ_lt_succ hn) (drop_add_of_drop hmem)

/-- **An attribute is found behind others of other names.** -/
theorem skiptoAttr_text {word : String} {attrs : List AttrText} {a : AttrText} (ha : a.Scannable)
    (hname : a.name = lit word) (h : ∀ b ∈ attrs, b.Scannable ∧ b.name ≠ lit word)
    (hmem : mem.drop data = attrsText attrs ++ (a.text ++ rest)) :
    xmlfsmSkiptoAttr mem data word = some (some (a.spans (data + (attrsText attrs).length)),
      data + (attrsText attrs).length + a.text.length) := by
  have hshort : attrs.length < rounds mem := by
    have hle := length_le_attrsText attrs
    have hmemlen := congrArg List.length hmem
    rw [List.length_drop, List.length_append] at hmemlen
    unfold rounds
    omega
  unfold xmlfsmSkiptoAttr attrLoop
  dsimp only
  rw [SearchRounds.run ⟨?_, ?_⟩ ha hname h hshort hmem]
  · rfl
  · intro data attr next hnext hne
    simp [hnext, hne]
  · intro data attr next hnext he
    simp [hnext, he]

end Attributes

end Mukite
