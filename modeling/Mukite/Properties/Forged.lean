import Mukite.Lib.XmlReader
import Mukite.Properties.Siblings
import Mukite.Properties.Header

/-!
# Room data from a client

A client could put an `<x/>` of the namespaces muc or muc#user into its presence, as if it came
from the room. `packet_parse` looks for such nodes and `packet_cleanup` blanks those that were
found: whatever the mode is, it leaves the payload with blanks in their place (`cleaned_leftOver`).

What an `<x/>` of these namespaces is, is said by the text (`XmlReader`), not by the scanner of the
program, which takes quotes in character data for those of a value, and knows no labels.
-/

namespace Mukite

/-! ## The property -/

/-- A tag with which an `<x/>` of one of the namespaces starts, in a stanza with a header. -/
def startsRoomData (header : Buffer) (tag : Bytes) : Bool :=
  XmlReader.localPart (XmlReader.tagName tag) == lit "x" &&
    (XmlReader.namespaceOf (XmlReader.attrsFrom [] none (bptBytes header)) tag).any (fun ns =>
      ns == lit xmlnsMuc || ns == lit xmlnsMucUser)

/-- No element at the top of a payload is an `<x/>` of one of the namespaces. -/
def Unforged (header payload : Buffer) : Prop :=
  ∀ tag ∈ XmlReader.elements (bptBytes payload), startsRoomData header tag = false

instance (header payload : Buffer) : Decidable (Unforged header payload) :=
  inferInstanceAs (Decidable (∀ tag ∈ XmlReader.elements (bptBytes payload), _))

theorem unforged_none (header : Buffer) : Unforged header none :=
  fun _ h => absurd h List.not_mem_nil

/-- A position that lies in one of the nodes that `packet_parse` has found. -/
def inFound (ingress : IncomingPacket) (pos : Nat) : Bool :=
  [ingress.muc, ingress.mucUser].any (fun node =>
    node.any (fun s => decide (s.data ≤ pos) && decide (pos < s.stop)))

/-- The payload without these nodes: there are blanks in their place. -/
def leftOver (ingress : IncomingPacket) : Buffer :=
  ingress.inner.map (fun inner => (inner.bytes ingress.mem).mapIdx (fun i c =>
    if inFound ingress (inner.data + i) then ch ' ' else c))

/-! ## What the parser finds -/

/-- A node that `parse_presence_inner` takes for an `<x/>` of one of the namespaces. -/
def Found (mem : Bytes) (n : XmlNodeTraverser) : Prop :=
  n.nodeName.eqLit mem "x" = true ∧ ∃ attr next,
    xmlfsmSkiptoAttr mem n.node.data "xmlns" = some (some attr, next) ∧
      (attr.value.eqLit mem xmlnsMuc = true ∨ attr.value.eqLit mem xmlnsMucUser = true)

/-- What one child of a presence does to a packet. -/
inductive ChildCase (packet : IncomingPacket) (n : XmlNodeTraverser) : IncomingPacket → Prop
  | passed (h : ¬ Found packet.mem n) : ChildCase packet n packet
  | muc (h : packet.muc = none) (hf : Found packet.mem n) :
      ChildCase packet n { packet with muc := some n.extent }
  | mucUser (h : packet.mucUser = none) (hf : Found packet.mem n) :
      ChildCase packet n { packet with mucUser := some n.extent }

theorem presenceChild_case {packet packet' : IncomingPacket} {n : XmlNodeTraverser}
    (h : presenceChild packet n = some (.inl packet')) : ChildCase packet n packet' := by
  unfold presenceChild at h
  split at h
  · next hx =>
    cases h
    refine .passed fun hf => ?_
    rw [hf.1] at hx
    cases hx
  · next hx =>
    have hx : n.nodeName.eqLit packet.mem "x" = true := by simpa using hx
    obtain ⟨⟨attr, data⟩, hattr, h⟩ := Option.bind_eq_some_iff.mp h
    cases attr with
    | none =>
      cases h
      refine .passed fun hf => ?_
      obtain ⟨-, attr, next, hskip, -⟩ := hf
      rw [hattr] at hskip
      cases hskip
    | some attr =>
      dsimp only at h
      split at h
      · next huser =>
        split at h
        -- a second node of a kind drops the stanza
        · cases h
        · next hnone =>
          cases h
          exact .mucUser (by simpa using hnone) ⟨hx, attr, data, hattr, .inr huser⟩
      · next huser =>
        split at h
        · next hmuc =>
          split at h
          · cases h
          · next hnone =>
            cases h
            exact .muc (by simpa using hnone) ⟨hx, attr, data, hattr, .inl hmuc⟩
        · next hmuc =>
          cases h
          refine .passed fun hf => ?_
          obtain ⟨-, attr', next, hskip, hor⟩ := hf
          rw [hattr] at hskip
          cases hskip
          exact hor.elim hmuc huser

/-- What the search through the nodes of a presence leaves. -/
structure Searched (packet packet' : IncomingPacket) (nodes : List XmlNodeTraverser) : Prop where
  memory : packet'.mem = packet.mem
  mucKept : ∀ s, packet.muc = some s → packet'.muc = some s
  userKept : ∀ s, packet.mucUser = some s → packet'.mucUser = some s
  mucFrom : ∀ s, packet'.muc = some s →
    packet.muc = some s ∨ ∃ n ∈ nodes, Found packet.mem n ∧ s = n.extent
  userFrom : ∀ s, packet'.mucUser = some s →
    packet.mucUser = some s ∨ ∃ n ∈ nodes, Found packet.mem n ∧ s = n.extent
  all : ∀ n ∈ nodes, Found packet.mem n →
    packet'.muc = some n.extent ∨ packet'.mucUser = some n.extent

theorem Folds.searched {packet packet' : IncomingPacket} {nodes : List XmlNodeTraverser}
    (h : Folds presenceChild packet nodes packet') : Searched packet packet' nodes := by
  induction h with
  | nil packet =>
    exact ⟨rfl, fun _ => id, fun _ => id, fun _ => .inl, fun _ => .inl,
      fun _ hm => absurd hm List.not_mem_nil⟩
  | @cons packet packet₁ packet' n rest h ht ih =>
    cases presenceChild_case h with
    | passed hn =>
      refine ⟨ih.memory, ih.mucKept, ih.userKept, fun s hs => ?_, fun s hs => ?_, ?_⟩
      · exact (ih.mucFrom s hs).imp_right fun ⟨m, hm, he⟩ => ⟨m, List.mem_cons_of_mem _ hm, he⟩
      · exact (ih.userFrom s hs).imp_right fun ⟨m, hm, he⟩ => ⟨m, List.mem_cons_of_mem _ hm, he⟩
      · intro m hm hf
        rcases List.mem_cons.mp hm with rfl | hm
        · exact absurd hf hn
        · exact ih.all m hm hf
    | muc hnone hf =>
      refine ⟨ih.memory, fun s hs => ?_, ih.userKept, fun s hs => ?_, fun s hs => ?_, ?_⟩
      · rw [hnone] at hs
        cases hs
      · rcases ih.mucFrom s hs with he | ⟨m, hm, he⟩
        · exact .inr ⟨n, List.mem_cons_self, hf, (Option.some.inj he).symm⟩
        · exact .inr ⟨m, List.mem_cons_of_mem _ hm, he⟩
      · exact (ih.userFrom s hs).imp_right fun ⟨m, hm, he⟩ => ⟨m, List.mem_cons_of_mem _ hm, he⟩
      · intro m hm hf
        rcases List.mem_cons.mp hm with rfl | hm
        · exact .inl (ih.mucKept _ rfl)
        · exact ih.all m hm hf
    | mucUser hnone hf =>
      refine ⟨ih.memory, ih.mucKept, fun s hs => ?_, fun s hs => ?_, fun s hs => ?_, ?_⟩
      · rw [hnone] at hs
        cases hs
      · exact (ih.mucFrom s hs).imp_right fun ⟨m, hm, he⟩ => ⟨m, List.mem_cons_of_mem _ hm, he⟩
      · rcases ih.userFrom s hs with he | ⟨m, hm, he⟩
        · exact .inr ⟨n, List.mem_cons_self, hf, (Option.some.inj he).symm⟩
        · exact .inr ⟨m, List.mem_cons_of_mem _ hm, he⟩
      · intro m hm hf
        rcases List.mem_cons.mp hm with rfl | hm
        · exact .inr (ih.userKept _ rfl)
        · exact ih.all m hm hf

/-! ## Blanking nodes -/

theorem length_blankNode {mem : Bytes} {node : Option Span}
    (h : ∀ t, node = some t → t.data ≤ t.stop ∧ t.stop ≤ mem.length) :
    (blankNode mem node).length = mem.length := by
  cases node with
  | none => rfl
  | some t =>
    obtain ⟨hle, hlt⟩ := h t rfl
    exact length_memcpy (by rw [List.length_replicate]; omega)

theorem bytes_blankNode_self {mem : Bytes} {s : Span} (hle : s.data ≤ s.stop)
    (hs : s.stop ≤ mem.length) :
    s.bytes (blankNode mem (some s)) = List.replicate (s.stop - s.data) (ch ' ') := by
  apply List.ext_getElem?
  intro i
  show (s.bytes (memcpy mem s.data (List.replicate (s.stop - s.data) (ch ' '))))[i]? = _
  rw [Span.getElem?_bytes, getElem?_memcpy (by rw [List.length_replicate]; omega),
    List.length_replicate, List.getElem?_replicate, List.getElem?_replicate,
    show s.data + i - s.data = i from Nat.add_sub_cancel_left ..]
  split
  · rw [if_pos (by omega)]
  · rfl

/-- A node is blanked, what lies apart from it is not. -/
theorem bytes_blankNode {mem : Bytes} {node : Option Span} {s : Span}
    (h : ∀ t, node = some t → t.data ≤ t.stop ∧ t.stop ≤ mem.length ∧ (t = s ∨ t.Apart s)) :
    s.bytes (blankNode mem node)
      = if node = some s then List.replicate (s.stop - s.data) (ch ' ') else s.bytes mem := by
  cases node with
  | none =>
    rw [if_neg (Option.some_ne_none s).symm]
    rfl
  | some t =>
    obtain ⟨hle, hlt, hts⟩ := h t rfl
    by_cases hsame : t = s
    · subst hsame
      rw [if_pos rfl]
      exact bytes_blankNode_self hle hlt
    · rw [if_neg (fun he => hsame (Option.some.inj he))]
      have hfit : t.data + (t.stop - t.data) = t.stop := by omega
      refine Span.bytes_memcpy ?_ ?_
      · rw [List.length_replicate]
        omega
      · rw [List.length_replicate, hfit]
        exact hts.resolve_left hsame

/-- A block whose bytes from a position on have not been written. -/
structure EditedBelow (pos : Nat) (mem mem' : Bytes) : Prop where
  length : mem'.length = mem.length
  drop : mem'.drop pos = mem.drop pos

theorem EditedBelow.refl (pos : Nat) (mem : Bytes) : EditedBelow pos mem mem := ⟨rfl, rfl⟩

theorem EditedBelow.trans {pos : Nat} {mem mem₁ mem' : Bytes} (h : EditedBelow pos mem mem₁)
    (h' : EditedBelow pos mem₁ mem') : EditedBelow pos mem mem' :=
  ⟨h'.length.trans h.length, h'.drop.trans h.drop⟩

theorem EditedBelow.bytes {pos : Nat} {mem mem' : Bytes} (h : EditedBelow pos mem mem') {s : Span}
    (hs : pos ≤ s.data) : s.bytes mem' = s.bytes mem := by
  have hpos : s.data = pos + (s.data - pos) := by omega
  unfold Span.bytes
  rw [hpos, ← List.drop_drop, h.drop, List.drop_drop]

theorem EditedBelow.memcpy {pos start : Nat} {mem bytes : Bytes} (hle : start + bytes.length ≤ pos)
    (hpos : pos ≤ mem.length) : EditedBelow pos mem (memcpy mem start bytes) where
  length := length_memcpy (by omega)
  drop := by
    apply List.ext_getElem?
    intro i
    rw [List.getElem?_drop, List.getElem?_drop, getElem?_memcpy (by omega), if_neg (by omega)]

theorem EditedBelow.blankAttr {pos : Nat} {mem : Bytes} {attr : Option XmlAttr}
    (h : ∀ a, attr = some a → a.name.data ≤ a.value.stop ∧ a.value.stop < pos)
    (hpos : pos ≤ mem.length) : EditedBelow pos mem (blankAttr mem attr) := by
  cases attr with
  | none => exact .refl pos mem
  | some a =>
    obtain ⟨hle, hlt⟩ := h a rfl
    exact .memcpy (by rw [List.length_replicate]; omega) hpos

/-- **What a clean-up writes besides the nodes lies in the header.** -/
theorem packetCleanup_editedBelow {ingress : IncomingPacket} (h : HeaderLaid ingress) (mode : Nat)
    (hlen : (blankNode (blankNode ingress.mem ingress.muc) ingress.mucUser).length
      = ingress.mem.length) :
    EditedBelow ingress.header.stop (blankNode (blankNode ingress.mem ingress.muc) ingress.mucUser)
      (packetCleanup ingress mode).mem := by
  have hpos := h.header.2
  have hattr : ∀ k a, ingress.attr k = some a →
      a.name.data ≤ a.value.stop ∧ a.value.stop < ingress.header.stop := by
    intro k a hk
    have := h.attrs k a hk
    omega
  unfold packetCleanup
  dsimp only
  generalize hm : blankNode (blankNode ingress.mem ingress.muc) ingress.mucUser = mem at hlen ⊢
  -- attribute by attribute, in the order of the code
  have h₁ : EditedBelow ingress.header.stop mem (Mukite.blankAttr mem ingress.typeAttr) :=
    .blankAttr (hattr .type) (by omega)
  generalize Mukite.blankAttr mem ingress.typeAttr = mem₁ at h₁ ⊢
  have h₂ : EditedBelow ingress.header.stop mem
      (if mode &&& packetCleanupId ≠ 0 then Mukite.blankAttr mem₁ ingress.idAttr else mem₁) := by
    split
    · exact h₁.trans (.blankAttr (hattr .id) (by rw [h₁.length]; omega))
    · exact h₁
  generalize (if mode &&& packetCleanupId ≠ 0 then Mukite.blankAttr mem₁ ingress.idAttr else mem₁)
    = mem₂ at h₂ ⊢
  have h₃ : EditedBelow ingress.header.stop mem
      (if mode &&& packetCleanupTo ≠ 0 then Mukite.blankAttr mem₂ ingress.toAttr else mem₂) := by
    split
    · exact h₂.trans (.blankAttr (hattr .recipient) (by rw [h₂.length]; omega))
    · exact h₂
  generalize (if mode &&& packetCleanupTo ≠ 0 then Mukite.blankAttr mem₂ ingress.toAttr else mem₂)
    = mem₃ at h₃ ⊢
  split
  · refine h₃.trans ?_
    cases hf : ingress.fromAttr with
    | none => exact .refl _ _
    | some a =>
      have hsize := h.sender_size hf
      have ha := hattr .sender a hf
      have hfour : (lit "  to").length = 4 := by decide
      exact .memcpy (by omega) (by rw [h₃.length]; omega)
  · split
    · exact h₃.trans (.blankAttr (hattr .sender) (by rw [h₃.length]; omega))
    · exact h₃

/-! ## A presence that has been cleaned up -/

/-- Where the nodes of an accepted presence lie, and which of them the parser has found. -/
structure NodesFound (ingress : IncomingPacket) (inner : Span) (nodes : List XmlNodeTraverser)
    (last : Nat) : Prop where
  visits : Visits ingress.mem inner nodes
  laid : NodesLaid ingress.mem inner nodes last
  muc : ∀ s, ingress.muc = some s → ∃ n ∈ nodes, Found ingress.mem n ∧ s = n.extent
  mucUser : ∀ s, ingress.mucUser = some s → ∃ n ∈ nodes, Found ingress.mem n ∧ s = n.extent
  all : ∀ n ∈ nodes, Found ingress.mem n →
    ingress.muc = some n.extent ∨ ingress.mucUser = some n.extent

/-- The search through a payload that does not end before it begins. -/
theorem Accepted.nodesVisited {ingress : IncomingPacket} (h : Accepted ingress)
    (hname : ingress.name = .presence)
    (hle : (spanOf ingress.inner).data ≤ (spanOf ingress.inner).stop) :
    ∃ nodes last, NodesFound ingress (spanOf ingress.inner) nodes last := by
  obtain ⟨mem, h⟩ := h
  obtain ⟨packet, hp, -, ⟨-, hpre⟩ | ⟨hne, rfl⟩⟩ := packetParse_spec h
  · obtain ⟨muc, mucUser, heq⟩ := parsePresenceInner_eq hpre
    have hsame : ingress.inner = packet.inner := by rw [heq]
    unfold parsePresenceInner at hpre
    obtain ⟨x, hx, hpre⟩ := Option.bind_eq_some_iff.mp hpre
    cases x with
    | inr _ => cases hpre
    | inl p =>
      cases hpre
      rw [← hsame] at hx
      obtain ⟨nodes, hv, hf⟩ := siblingLoop_visits hx
      obtain ⟨last, hl⟩ := hv.laid hle
      have hs := hf.searched
      refine ⟨nodes, last, ?_, ?_, fun s hs' => ?_, fun s hs' => ?_, fun n hn hc => ?_⟩
      · rw [hs.memory]
        exact hv
      · rw [hs.memory]
        exact hl
      · rw [hs.memory]
        refine (hs.mucFrom s hs').resolve_left fun he => ?_
        rw [hp.found.1] at he
        cases he
      · rw [hs.memory]
        refine (hs.userFrom s hs').resolve_left fun he => ?_
        rw [hp.found.2] at he
        cases he
      · rw [hs.memory] at hc
        exact hs.all n hn hc
  · exact absurd hname hne

theorem Accepted.nodesFound {ingress : IncomingPacket} (h : Accepted ingress)
    (hname : ingress.name = .presence) {inner : Span} (hinner : ingress.inner = some inner)
    (hle : inner.data ≤ inner.stop) : ∃ nodes last, NodesFound ingress inner nodes last := by
  have hspan : spanOf ingress.inner = inner := congrArg spanOf hinner
  obtain ⟨nodes, last, hf⟩ := h.nodesVisited hname (by rw [hspan]; exact hle)
  exact ⟨nodes, last, hspan ▸ hf⟩

/-- Without a payload there is nothing to find. -/
theorem Accepted.found_none_of_inner {ingress : IncomingPacket} (h : Accepted ingress)
    (hinner : ingress.inner = none) : ingress.muc = none ∧ ingress.mucUser = none := by
  by_cases hname : ingress.name = .presence
  · have hspan : spanOf ingress.inner = { data := 0, stop := 0 } := congrArg spanOf hinner
    obtain ⟨nodes, last, hf⟩ := h.nodesVisited hname (Nat.le_of_eq (by rw [hspan]))
    rw [hspan] at hf
    have hnil : nodes = [] := by
      refine List.eq_nil_iff_forall_not_mem.mpr fun n hn => ?_
      have hw := hf.laid.within n hn
      have hlast : last ≤ 0 := hf.laid.last_le
      omega
    subst hnil
    refine ⟨Option.eq_none_iff_forall_ne_some.mpr fun s hs => ?_,
      Option.eq_none_iff_forall_ne_some.mpr fun s hs => ?_⟩
    · obtain ⟨n, hn, -⟩ := hf.muc s hs
      exact absurd hn List.not_mem_nil
    · obtain ⟨n, hn, -⟩ := hf.mucUser s hs
      exact absurd hn List.not_mem_nil
  · exact h.found_none hname

/-- Two nodes are one, or lie apart. -/
theorem NodesLaid.eq_or_apart {mem : Bytes} {buffer : Span} {nodes : List XmlNodeTraverser}
    {last : Nat} (h : NodesLaid mem buffer nodes last) {n m : XmlNodeTraverser} (hn : n ∈ nodes)
    (hm : m ∈ nodes) : n = m ∨ n.extent.Apart m.extent := by
  refine List.Pairwise.forall_of_forall_of_flip (R := fun n m => n = m ∨
    n.extent.Apart m.extent) (fun _ _ => .inl rfl) ?_ ?_ hn hm
  · exact h.apart.imp fun hnm => .inr (.inl hnm)
  · exact h.apart.imp fun hnm => .inr (.inr hnm)

/-- Blanks alone are no node. -/
theorem not_wholeNode_blanks (k : Nat) : ¬ WholeNode (List.replicate k (ch ' ')) := by
  intro h
  have hnil := skipNodeLoop_blanks [] k 0
  rw [List.append_nil] at hnil
  unfold WholeNode at h
  rw [hnil] at h
  cases h

/-- The block after the nodes that were found have been blanked. -/
def blankedMem (ingress : IncomingPacket) : Bytes :=
  blankNode (blankNode ingress.mem ingress.muc) ingress.mucUser

namespace NodesFound

variable {ingress : IncomingPacket} {inner : Span} {nodes : List XmlNodeTraverser} {last : Nat}

theorem extent_le (h : NodesFound ingress inner nodes last)
    (hstop : inner.stop ≤ ingress.mem.length) {n : XmlNodeTraverser} (hn : n ∈ nodes) :
    n.extent.data ≤ n.extent.stop ∧ n.extent.stop ≤ ingress.mem.length := by
  have hw := h.laid.within n hn
  have := h.laid.last_le
  omega

theorem length_blankMuc (h : NodesFound ingress inner nodes last)
    (hstop : inner.stop ≤ ingress.mem.length) :
    (blankNode ingress.mem ingress.muc).length = ingress.mem.length := by
  refine length_blankNode fun t ht => ?_
  obtain ⟨n, hn, -, rfl⟩ := h.muc t ht
  exact h.extent_le hstop hn

theorem length_blankedMem (h : NodesFound ingress inner nodes last)
    (hstop : inner.stop ≤ ingress.mem.length) :
    (blankedMem ingress).length = ingress.mem.length := by
  unfold blankedMem
  rw [length_blankNode, h.length_blankMuc hstop]
  intro t ht
  obtain ⟨n, hn, -, rfl⟩ := h.mucUser t ht
  rw [h.length_blankMuc hstop]
  exact h.extent_le hstop hn

/-- What becomes of an extent that is no part of a node. -/
theorem bytes_blankedMem (h : NodesFound ingress inner nodes last)
    (hstop : inner.stop ≤ ingress.mem.length) {s : Span}
    (hs : ∀ n ∈ nodes, n.extent = s ∨ n.extent.Apart s) :
    s.bytes (blankedMem ingress)
      = if ingress.muc = some s ∨ ingress.mucUser = some s then
          List.replicate (s.stop - s.data) (ch ' ')
        else s.bytes ingress.mem := by
  have hmuc : s.bytes (blankNode ingress.mem ingress.muc)
      = if ingress.muc = some s then List.replicate (s.stop - s.data) (ch ' ')
        else s.bytes ingress.mem := by
    refine bytes_blankNode fun t ht => ?_
    obtain ⟨n, hn, -, rfl⟩ := h.muc t ht
    exact ⟨(h.extent_le hstop hn).1, (h.extent_le hstop hn).2, hs n hn⟩
  have huser : s.bytes (blankedMem ingress)
      = if ingress.mucUser = some s then List.replicate (s.stop - s.data) (ch ' ')
        else s.bytes (blankNode ingress.mem ingress.muc) := by
    refine bytes_blankNode fun t ht => ?_
    obtain ⟨n, hn, -, rfl⟩ := h.mucUser t ht
    rw [h.length_blankMuc hstop]
    exact ⟨(h.extent_le hstop hn).1, (h.extent_le hstop hn).2, hs n hn⟩
  rw [huser, hmuc]
  by_cases h₁ : ingress.mucUser = some s
  · rw [if_pos h₁, if_pos (.inr h₁)]
  · by_cases h₂ : ingress.muc = some s
    · rw [if_neg h₁, if_pos h₂, if_pos (.inl h₂)]
    · rw [if_neg h₁, if_neg h₂, if_neg (not_or.mpr ⟨h₂, h₁⟩)]

/-- A node is blanked at each of its positions. -/
theorem getElem?_blankNode {mem : Bytes} {node : Option Span} {i : Nat}
    (h : ∀ t, node = some t → t.data ≤ t.stop ∧ t.stop ≤ mem.length) :
    (blankNode mem node)[i]? = mem[i]?.map (fun c =>
      if node.any (fun s => decide (s.data ≤ i) && decide (i < s.stop)) then ch ' ' else c) := by
  cases node with
  | none => simp [blankNode]
  | some t =>
    obtain ⟨hle, hstop⟩ := h t rfl
    show (memcpy mem t.data (List.replicate (t.stop - t.data) (ch ' ')))[i]? = _
    rw [getElem?_memcpy (by rw [List.length_replicate]; omega), List.length_replicate,
      List.getElem?_replicate]
    by_cases hi : t.data ≤ i ∧ i < t.stop
    · have hlt : i < mem.length := by omega
      rw [if_pos ⟨hi.1, by omega⟩, if_pos (by omega), List.getElem?_eq_getElem hlt]
      simp [hi.1, hi.2]
    · have hno : (decide (t.data ≤ i) && decide (i < t.stop)) = false := by
        simpa using hi
      rw [if_neg (by omega)]
      simp [hno]

/-- **What is left of the payload** when the nodes that were found have been blanked. -/
theorem bytes_leftOver (h : NodesFound ingress inner nodes last)
    (hstop : inner.stop ≤ ingress.mem.length) (hinner : ingress.inner = some inner) :
    some (inner.bytes (blankedMem ingress)) = leftOver ingress := by
  have hmuc : ∀ t, ingress.muc = some t → t.data ≤ t.stop ∧ t.stop ≤ ingress.mem.length := by
    intro t ht
    obtain ⟨n, hn, -, rfl⟩ := h.muc t ht
    exact h.extent_le hstop hn
  have huser : ∀ t, ingress.mucUser = some t →
      t.data ≤ t.stop ∧ t.stop ≤ (blankNode ingress.mem ingress.muc).length := by
    intro t ht
    obtain ⟨n, hn, -, rfl⟩ := h.mucUser t ht
    rw [h.length_blankMuc hstop]
    exact h.extent_le hstop hn
  unfold leftOver
  rw [hinner, Option.map_some]
  refine congrArg some (List.ext_getElem? fun i => ?_)
  rw [List.getElem?_mapIdx, Span.getElem?_bytes, Span.getElem?_bytes]
  split
  · unfold blankedMem
    rw [getElem?_blankNode huser, getElem?_blankNode hmuc, Option.map_map]
    refine Option.map_congr fun c _ => ?_
    unfold inFound
    simp only [Function.comp_apply, List.any_cons, List.any_nil, Bool.or_false, Bool.or_eq_true]
    by_cases hu : ingress.mucUser.any (fun s =>
        decide (s.data ≤ inner.data + i) && decide (inner.data + i < s.stop)) = true
    · rw [if_pos hu, if_pos (.inr hu)]
    · rw [if_neg hu]
      simp only [hu, Bool.false_eq_true, or_false]
  · rfl

end NodesFound

/-- **A clean-up leaves the payload without the nodes that were found.** -/
theorem cleaned_leftOver {ingress : IncomingPacket} (h : Accepted ingress)
    (hname : ingress.name = .presence) (mode : Nat) {payload : Buffer}
    (hp : (packetCleanup ingress mode).innerBytes = some payload) : payload = leftOver ingress := by
  unfold IncomingPacket.innerBytes at hp
  have hsame : (packetCleanup ingress mode).inner = ingress.inner := rfl
  rw [hsame] at hp
  cases hinner : ingress.inner with
  | none =>
    rw [hinner] at hp
    obtain rfl := Option.some.inj hp
    unfold leftOver
    rw [hinner]
    rfl
  | some inner =>
    rw [hinner] at hp
    obtain ⟨b, hb, rfl⟩ := Option.map_eq_some_iff.mp hp
    unfold Span.copy at hb
    split at hb
    · cases hb
    · next hle =>
      obtain rfl := Option.some.inj hb
      obtain ⟨hlaid, hin⟩ := h.headerLaid
      obtain ⟨hstart, hstop⟩ := hin inner hinner
      obtain ⟨nodes, last, hf⟩ := h.nodesFound hname hinner (Nat.not_lt.mp hle)
      have hedited := packetCleanup_editedBelow hlaid mode (hf.length_blankedMem hstop)
      rw [hedited.bytes hstart]
      exact hf.bytes_leftOver hstop hinner

end Mukite
