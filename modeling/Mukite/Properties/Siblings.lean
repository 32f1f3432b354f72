import Mukite.Xmlfsm

/-!
# The nodes of a payload

What `xmlfsm_skip_node` finds is a whole node, and what stands behind the node does not matter
(`wholeNode_of_skip`, `WholeNode.append`). A traversal with `xmlfsm_next_sibling` visits one node
after the other (`siblingLoop_visits`), and each begins where the one before has ended
(`Visits.laid`).
-/

namespace Mukite

open WhileLoop

/-! ## One character of a node -/

/-- The state of a scan that started `k` characters later. -/
def SkipState.shift (k : Nat) (st : SkipState) : SkipState :=
  { st with tagClosingPos := st.tagClosingPos.map (· + k) }

@[simp] theorem SkipState.shift_zero (st : SkipState) : st.shift 0 = st := by
  cases st with
  | mk level tag closing quote => cases closing <;> rfl

@[simp] theorem SkipState.shift_start (k : Nat) : SkipState.shift k {} = {} := rfl

/-- **A character ends the node or leads to another state**, wherever the scan has started. -/
theorem skipNodeLoop_cons (st : SkipState) (pos : Nat) (c : UInt8) :
    (∃ st' : SkipState, ∀ k rest, skipNodeLoop (st.shift k) (pos + k) (c :: rest)
        = skipNodeLoop (st'.shift k) (pos + k + 1) rest) ∨
      ∀ k rest, skipNodeLoop (st.shift k) (pos + k) (c :: rest) = some (pos + k + 1) := by
  obtain ⟨level, tag, closing, quote⟩ := st
  cases quote with
  | some q =>
    refine .inl ⟨if c == q then ⟨level, tag, closing, none⟩ else ⟨level, tag, closing, some q⟩,
      fun k rest => ?_⟩
    simp only [skipNodeLoop, SkipState.shift]
    split <;> rfl
  | none =>
    by_cases hlt : (c == ch '<') = true
    · refine .inl ⟨⟨level + 1, true, closing, none⟩, fun k rest => ?_⟩
      simp only [skipNodeLoop, SkipState.shift, hlt, if_true]
    by_cases hslash : (c == ch '/') = true
    · cases tag with
      | true =>
        refine .inl ⟨⟨level, true, some pos, none⟩, fun k rest => ?_⟩
        simp only [skipNodeLoop, SkipState.shift, hlt, hslash, if_true, if_false,
          Bool.false_eq_true, Option.map_some]
      | false =>
        refine .inl ⟨⟨level, false, closing, none⟩, fun k rest => ?_⟩
        simp only [skipNodeLoop, SkipState.shift, hlt, hslash, if_true, if_false,
          Bool.false_eq_true]
    by_cases hgt : (c == ch '>') = true
    · cases tag with
      | false =>
        refine .inl ⟨⟨level, false, closing, none⟩, fun k rest => ?_⟩
        simp only [skipNodeLoop, SkipState.shift, hlt, hslash, hgt, if_true, if_false,
          Bool.false_eq_true]
      | true =>
        cases closing with
        | none =>
          refine .inl ⟨⟨level, false, none, none⟩, fun k rest => ?_⟩
          simp only [skipNodeLoop, SkipState.shift, hlt, hslash, hgt, if_true, if_false,
            Bool.false_eq_true, Option.map_none]
        | some closing =>
          have hclose : ∀ k, closeTag ⟨level, true, some (closing + k), none⟩ (pos + k)
              (closing + k) = closeTag ⟨level, true, some closing, none⟩ pos closing := by
            intro k
            unfold closeTag
            rw [Nat.add_sub_add_right]
          by_cases hlevel : closeTag ⟨level, true, some closing, none⟩ pos closing = 0
          · refine .inr fun k rest => ?_
            simp only [skipNodeLoop, SkipState.shift, hlt, hslash, hgt, if_true, if_false,
              Bool.false_eq_true, Option.map_some, hclose, hlevel]
          · refine .inl ⟨⟨closeTag ⟨level, true, some closing, none⟩ pos closing, false, none,
              none⟩, fun k rest => ?_⟩
            simp only [skipNodeLoop, SkipState.shift, hlt, hslash, hgt, if_true, if_false,
              Bool.false_eq_true, Option.map_some, hclose, hlevel, Option.map_none]
    by_cases hquote : (c == quote2 || c == quote1) = true
    · refine .inl ⟨⟨level, tag, closing, some c⟩, fun k rest => ?_⟩
      simp only [skipNodeLoop, SkipState.shift, hlt, hslash, hgt, hquote, if_true,
        if_false, Bool.false_eq_true]
    · refine .inl ⟨⟨level, tag, closing, none⟩, fun k rest => ?_⟩
      simp only [skipNodeLoop, SkipState.shift, hlt, hslash, hgt, hquote, if_false,
        Bool.false_eq_true]

/-- The two ways of a character in a scan from the start of a text. -/
theorem skipNodeLoop_step (st : SkipState) (pos : Nat) (c : UInt8) :
    (∃ st', ∀ rest, skipNodeLoop st pos (c :: rest) = skipNodeLoop st' (pos + 1) rest) ∨
      ∀ rest, skipNodeLoop st pos (c :: rest) = some (pos + 1) := by
  rcases skipNodeLoop_cons st pos c with ⟨st', hgo⟩ | hend
  · exact .inl ⟨st', fun rest => by simpa using hgo 0 rest⟩
  · exact .inr fun rest => by simpa using hend 0 rest

/-- The position counts characters and nothing else. -/
theorem skipNodeLoop_shift (k : Nat) : ∀ (bytes : Bytes) (st : SkipState) (pos : Nat),
    skipNodeLoop (st.shift k) (pos + k) bytes = (skipNodeLoop st pos bytes).map (· + k)
  | [], _, _ => rfl
  | c :: rest, st, pos => by
    rcases skipNodeLoop_cons st pos c with ⟨st', hgo⟩ | hend
    · have h₀ := hgo 0 rest
      rw [SkipState.shift_zero, SkipState.shift_zero] at h₀
      have hpos : pos + k + 1 = pos + 1 + k := by omega
      rw [hgo k rest, hpos, skipNodeLoop_shift k rest st' (pos + 1)]
      exact congrArg _ h₀.symm
    · have h₀ := hend 0 rest
      rw [SkipState.shift_zero] at h₀
      have h₁ : skipNodeLoop st pos (c :: rest) = some (pos + 1) := h₀
      have hpos : pos + k + 1 = pos + 1 + k := by omega
      rw [hend k rest, h₁, hpos]
      rfl

/-- **A node ends with its text**, whatever stands behind it. -/
theorem skipNodeLoop_split : ∀ {bytes : Bytes} {st : SkipState} {pos stop : Nat},
    skipNodeLoop st pos bytes = some stop → ∃ node rest, bytes = node ++ rest ∧
      node ≠ [] ∧ stop = pos + node.length ∧
      ∀ tail, skipNodeLoop st pos (node ++ tail) = some stop
  | [], _, _, _, h => by cases h
  | c :: rest, st, pos, stop, h => by
    rcases skipNodeLoop_step st pos c with ⟨st', hgo⟩ | hend
    · rw [hgo] at h
      obtain ⟨node, rest', rfl, -, hstop, htail⟩ := skipNodeLoop_split h
      refine ⟨c :: node, rest', rfl, List.cons_ne_nil _ _, ?_, fun tail => ?_⟩
      · rw [List.length_cons]
        omega
      · rw [List.cons_append, hgo]
        exact htail tail
    · rw [hend] at h
      obtain rfl := Option.some.inj h
      exact ⟨[c], rest, rfl, List.cons_ne_nil _ _, rfl, fun tail => hend tail⟩

/-- White space before a node belongs to it. -/
theorem skipNodeLoop_blanks (b : Bytes) : ∀ (k pos : Nat),
    skipNodeLoop {} pos (List.replicate k (ch ' ') ++ b) = skipNodeLoop {} (pos + k) b
  | 0, _ => rfl
  | k + 1, pos => by
    have hstep : ∀ rest, skipNodeLoop {} pos (ch ' ' :: rest) = skipNodeLoop {} (pos + 1) rest :=
      fun _ => rfl
    rw [List.replicate_succ, List.cons_append, hstep, skipNodeLoop_blanks b k (pos + 1)]
    congr 1
    omega

/-! ## The nodes of a text -/

/-- A text that is one node, up to its last character. -/
def WholeNode (bytes : Bytes) : Prop := skipNodeLoop {} 0 bytes = some bytes.length

theorem WholeNode.ne_nil {node : Bytes} (h : WholeNode node) : node ≠ [] := by
  rintro rfl
  cases h

/-- What stands behind a node does not matter. -/
theorem WholeNode.append {node : Bytes} (h : WholeNode node) (tail : Bytes) :
    skipNodeLoop {} 0 (node ++ tail) = some node.length := by
  obtain ⟨whole, rest, hnode, -, hstop, htail⟩ := skipNodeLoop_split h
  have hlen := congrArg List.length hnode
  rw [List.length_append] at hlen
  have hrest : rest = [] := List.eq_nil_of_length_eq_zero (by omega)
  rw [hrest, List.append_nil] at hnode
  have hall := htail tail
  rwa [← hnode] at hall

/-- A scan that succeeds has found a whole node. -/
theorem wholeNode_of_skip {bytes : Bytes} {stop : Nat} (h : skipNodeLoop {} 0 bytes = some stop) :
    ∃ node rest, bytes = node ++ rest ∧ stop = node.length ∧ WholeNode node := by
  obtain ⟨node, rest, hbytes, -, hstop, htail⟩ := skipNodeLoop_split h
  have hstop : stop = node.length := by omega
  refine ⟨node, rest, hbytes, hstop, ?_⟩
  have hnil := htail []
  rwa [List.append_nil, hstop] at hnil

/-! ## Positions further on -/

def Span.shift (k : Nat) (s : Span) : Span := { data := k + s.data, stop := k + s.stop }

def XmlAttr.shift (k : Nat) (attr : XmlAttr) : XmlAttr :=
  { name := attr.name.shift k, value := attr.value.shift k }

def AttrState.shift (k : Nat) : AttrState → AttrState
  | .success attr => .success (attr.shift k)
  | .empty => .empty
  | .noattr => .noattr

theorem skip_prefix {p : UInt8 → Bool} : ∀ {b b' : Bytes} {n : Nat}, b <+: b' →
    skip p b = some n → skip p b' = some n
  | [], _, _, _, h => by cases h
  | c :: b, b', n, hpre, h => by
    obtain ⟨tail, rfl⟩ := hpre
    unfold skip at h
    rw [List.cons_append]
    unfold skip
    split at h
    · next hc =>
      obtain ⟨m, hm, rfl⟩ := Option.map_eq_some_iff.mp h
      rw [if_pos hc, skip_prefix (List.prefix_append b tail) hm]
      rfl
    · next hc =>
      rw [if_neg hc]
      exact h

/-! ## A loop over siblings -/

/-- The nodes that a traversal visits from a buffer on. -/
inductive Visits (mem : Bytes) : Span → List XmlNodeTraverser → Prop
  | none {buffer : Span} (h : xmlfsmNextSibling mem buffer = some none) : Visits mem buffer []
  | next {buffer : Span} {nodes : XmlNodeTraverser} {rest : List XmlNodeTraverser}
      (h : xmlfsmNextSibling mem buffer = some (some nodes)) (ht : Visits mem nodes.buffer rest) :
      Visits mem buffer (nodes :: rest)

/-- What the body of a loop makes of a state at the nodes it visits, if it never leaves. -/
inductive Folds {σ ρ : Type} (body : σ → XmlNodeTraverser → Option (σ ⊕ ρ)) :
    σ → List XmlNodeTraverser → σ → Prop
  | nil (s : σ) : Folds body s [] s
  | cons {s s₁ s' : σ} {nodes : XmlNodeTraverser} {rest : List XmlNodeTraverser}
      (h : body s nodes = some (.inl s₁)) (ht : Folds body s₁ rest s') :
      Folds body s (nodes :: rest) s'

/-- **A loop that is not left has visited all nodes.** The invariant says how to go on. -/
theorem siblingLoop_visits {σ ρ : Type} {mem : Bytes}
    {body : σ → XmlNodeTraverser → Option (σ ⊕ ρ)} {buffer : Span} {s s' : σ}
    (h : siblingLoop mem body buffer s = some (.inl s')) :
    ∃ nodes, Visits mem buffer nodes ∧ Folds body s nodes s' := by
  refine whileLoop_rule
    (I := fun x : Span × σ => ∀ rest s', Visits mem x.1 rest → Folds body x.2 rest s' →
      ∃ nodes, Visits mem buffer nodes ∧ Folds body s nodes s')
    (Q := fun r => ∀ s', r = .inl s' → ∃ nodes, Visits mem buffer nodes ∧ Folds body s nodes s')
    ?_ ?_ _ _ _ (fun rest s' hv hf => ⟨rest, hv, hf⟩) h s' rfl
  · rintro ⟨b, t⟩ ⟨b', t'⟩ hI hb rest s' hv hf
    obtain ⟨next, hnext, hb⟩ := Option.bind_eq_some_iff.mp hb
    cases next with
    | none => simp at hb
    | some nodes =>
      obtain ⟨y, hy, hb⟩ := Option.bind_eq_some_iff.mp hb
      cases y with
      | inr r => simp at hb
      | inl t₁ =>
        cases hb
        exact hI (nodes :: rest) s' (.next hnext hv) (.cons hy hf)
  · rintro ⟨b, t⟩ r hI hb s' rfl
    obtain ⟨next, hnext, hb⟩ := Option.bind_eq_some_iff.mp hb
    cases next with
    | none =>
      cases hb
      exact hI [] _ (.none hnext) (.nil _)
    | some nodes =>
      obtain ⟨y, hy, hb⟩ := Option.bind_eq_some_iff.mp hb
      cases y with
      | inl t₁ => simp at hb
      | inr r => cases hb

/-! ## Where the nodes lie -/

theorem Span.bytes_append {a b c : Nat} (mem : Bytes) (hab : a ≤ b) (hbc : b ≤ c) :
    Span.bytes mem { data := a, stop := c }
      = Span.bytes mem { data := a, stop := b } ++ Span.bytes mem { data := b, stop := c } := by
  unfold Span.bytes
  dsimp only
  have hb : b = a + (b - a) := by omega
  have hc : c - a = (b - a) + (c - b) := by omega
  rw [hc, List.take_add, List.drop_drop, ← hb]

/-- The extent of a node. -/
def XmlNodeTraverser.extent (nodes : XmlNodeTraverser) : Span :=
  { data := nodes.nodeStart, stop := nodes.node.stop }

/-- One node of a traversal: where it lies, and what is left of the buffer. -/
structure NodeLaid (mem : Bytes) (buffer : Span) (nodes : XmlNodeTraverser) : Prop where
  start : nodes.nodeStart = buffer.data
  left : nodes.buffer = { data := nodes.node.stop, stop := buffer.stop }
  start_lt : buffer.data < nodes.node.stop
  stop_le : nodes.node.stop ≤ buffer.stop
  whole : WholeNode (nodes.extent.bytes mem)
  name : xmlfsmNodeName mem nodes.extent = some (nodes.nodeName, nodes.node.data)

theorem skipNodeLoop_from (pos : Nat) (bytes : Bytes) :
    skipNodeLoop {} pos bytes = (skipNodeLoop {} 0 bytes).map (· + pos) := by
  have hshift := skipNodeLoop_shift pos bytes {} 0
  rwa [SkipState.shift_start, Nat.zero_add] at hshift

theorem xmlfsmNextSibling_laid {mem : Bytes} {buffer : Span} {nodes : XmlNodeTraverser}
    (hle : buffer.data ≤ buffer.stop)
    (h : xmlfsmNextSibling mem buffer = some (some nodes)) : NodeLaid mem buffer nodes := by
  unfold xmlfsmNextSibling xmlfsmSkipNode at h
  rw [if_pos hle] at h
  obtain ⟨next, hnext, h⟩ := Option.bind_eq_some_iff.mp h
  cases next with
  | none => cases h
  | some stop =>
    obtain ⟨⟨name, data⟩, hname, h⟩ := Option.bind_eq_some_iff.mp h
    cases h
    rw [Option.some.injEq, skipNodeLoop_from] at hnext
    obtain ⟨size, hsize, hstop⟩ := Option.map_eq_some_iff.mp hnext
    obtain ⟨node, rest, hbytes, hlen, hwhole⟩ := wholeNode_of_skip hsize
    have hpos := List.length_pos_iff.mpr hwhole.ne_nil
    have htotal := congrArg List.length hbytes
    unfold Span.bytes at hbytes htotal
    rw [List.length_take, List.length_append] at htotal
    have hnode : Span.bytes mem { data := buffer.data, stop := stop } = node := by
      have hfront : ((mem.drop buffer.data).take (buffer.stop - buffer.data)).take size = node := by
        rw [hbytes, hlen, List.take_left]
      rw [List.take_take] at hfront
      unfold Span.bytes
      dsimp only
      rw [← hfront]
      congr 1
      omega
    refine ⟨rfl, rfl, by dsimp only; omega, by dsimp only; omega, ?_, hname⟩
    rw [show XmlNodeTraverser.extent _ = Span.mk buffer.data stop from rfl, hnode]
    exact hwhole

theorem xmlfsmNextSibling_none {mem : Bytes} {buffer : Span} (hle : buffer.data ≤ buffer.stop)
    (h : xmlfsmNextSibling mem buffer = some none) :
    skipNodeLoop {} 0 (buffer.bytes mem) = none := by
  unfold xmlfsmNextSibling xmlfsmSkipNode at h
  rw [if_pos hle] at h
  obtain ⟨next, hnext, h⟩ := Option.bind_eq_some_iff.mp h
  cases next with
  | none =>
    rw [Option.some.injEq, skipNodeLoop_from] at hnext
    exact Option.map_eq_none_iff.mp hnext
  | some stop =>
    obtain ⟨_, -, h⟩ := Option.bind_eq_some_iff.mp h
    cases h

/-- The nodes of a traversal lie one after the other, and behind them there is none. -/
structure NodesLaid (mem : Bytes) (buffer : Span) (nodes : List XmlNodeTraverser) (last : Nat) :
    Prop where
  start_le : buffer.data ≤ last
  last_le : last ≤ buffer.stop
  split : ∀ mem' : Bytes, buffer.bytes mem' = (nodes.map (fun n => n.extent.bytes mem')).flatten ++
    Span.bytes mem' { data := last, stop := buffer.stop }
  none : skipNodeLoop {} 0 (Span.bytes mem { data := last, stop := buffer.stop }) = none
  whole : ∀ n ∈ nodes, WholeNode (n.extent.bytes mem)
  within : ∀ n ∈ nodes, buffer.data ≤ n.extent.data ∧ n.extent.data < n.extent.stop ∧
    n.extent.stop ≤ last
  name : ∀ n ∈ nodes, xmlfsmNodeName mem n.extent = some (n.nodeName, n.node.data)
  apart : nodes.Pairwise (fun n m => n.extent.stop ≤ m.extent.data)

theorem Visits.laid {mem : Bytes} {buffer : Span} {nodes : List XmlNodeTraverser}
    (h : Visits mem buffer nodes) (hle : buffer.data ≤ buffer.stop) :
    ∃ last, NodesLaid mem buffer nodes last := by
  induction h with
  | none h =>
    refine ⟨_, Nat.le_refl _, hle, fun _ => rfl, xmlfsmNextSibling_none hle h,
      fun _ hm => absurd hm List.not_mem_nil, fun _ hm => absurd hm List.not_mem_nil,
      fun _ hm => absurd hm List.not_mem_nil, .nil⟩
  | @next buffer node rest h ht ih =>
    have hn := xmlfsmNextSibling_laid hle h
    have hstart : node.extent.data = buffer.data := hn.start
    have hstop : node.extent.stop = node.node.stop := rfl
    have hlt := hn.start_lt
    have hle' := hn.stop_le
    rw [hn.left] at ih
    obtain ⟨last, hl⟩ := ih hle'
    have hfirst : node.node.stop ≤ last := hl.start_le
    refine ⟨last, by omega, hl.last_le, fun mem' => ?_, hl.none, ?_, ?_, ?_, ?_⟩
    · rw [List.map_cons, List.flatten_cons, List.append_assoc, ← hl.split mem',
        show node.extent = Span.mk buffer.data node.node.stop by rw [← hn.start]; rfl]
      exact Span.bytes_append mem' (Nat.le_of_lt hlt) hle'
    · intro n hm
      rcases List.mem_cons.mp hm with rfl | hm
      · exact hn.whole
      · exact hl.whole n hm
    · intro n hm
      rcases List.mem_cons.mp hm with rfl | hm
      · omega
      · have hw := hl.within n hm
        dsimp only at hw
        omega
    · intro n hm
      rcases List.mem_cons.mp hm with rfl | hm
      · exact hn.name
      · exact hl.name n hm
    · refine List.pairwise_cons.mpr ⟨fun m hm => ?_, hl.apart⟩
      exact (hl.within m hm).1

end Mukite
