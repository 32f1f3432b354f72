import Mukite.Jid

/-!
# The text of a JID, parsed again

The data file holds JIDs as text, so what is saved is loaded as the same JID only if `jid_struct`
finds the same parts in it. For the JIDs the program keeps, it does unless the host of a JID
without a node has an `@` in it (`jidStruct_jidStr`); it finds no JID at all when nothing follows
the first such `@` (`jidStruct_jidStr_none_iff`).
-/

namespace Mukite

/-- The parts of a JID, cut apart at the first separators and within their limits. -/
structure CutJid (jid : Jid) : Prop where
  node : ∀ c ∈ bptBytes jid.node, c ≠ ch '@' ∧ c ≠ ch '/'
  host : ∀ c ∈ bptBytes jid.host, c ≠ ch '/'
  isSome : jid.host.isSome
  pos : 0 < bptSize jid.host
  host_le : bptSize jid.host ≤ maxJidPartSize
  node_le : bptSize jid.node ≤ maxJidPartSize
  resource_le : bptSize jid.resource ≤ maxJidPartSize

/-- The JIDs the program keeps: copies that `jid_set` has made of parsed JIDs, or of copies. -/
inductive SetJid : Jid → Prop
  | parsed {src : Jid} (h : ParsedJid src) (parts : Nat) : SetJid (jidSet src parts)
  | copied {src : Jid} (h : SetJid src) (parts : Nat) : SetJid (jidSet src parts)

/-! ## What the parser cuts -/

theorem jidStructLoop_cut : ∀ (s : Bytes) (node : Buffer) (part : Bytes),
    (∀ c ∈ bptBytes node, c ≠ ch '@' ∧ c ≠ ch '/') → (∀ c ∈ part, c ≠ ch '/') →
    (node = none → ∀ c ∈ part, c ≠ ch '@') →
    (∀ c ∈ bptBytes (jidStructLoop node part s).node, c ≠ ch '@' ∧ c ≠ ch '/') ∧
      (∀ c ∈ bptBytes (jidStructLoop node part s).host, c ≠ ch '/') ∧
      (jidStructLoop node part s).host.isSome
  | [], node, part, hnode, hpart, _ => ⟨hnode, hpart, rfl⟩
  | c :: rest, node, part, hnode, hpart, hat => by
    unfold jidStructLoop
    split
    · next h =>
      simp only [Bool.and_eq_true, Option.isNone_iff_eq_none] at h
      exact jidStructLoop_cut rest (some part) [] (fun d hd => ⟨hat h.1 d hd, hpart d hd⟩)
        (by simp) (by simp)
    · next h =>
      split
      · exact ⟨hnode, hpart, rfl⟩
      · next hs =>
        have hc : ∀ d ∈ part ++ [c], d ≠ ch '/' := by
          intro d hd
          rcases List.mem_append.mp hd with hd | hd
          · exact hpart d hd
          · rw [List.mem_singleton.mp hd]
            simpa using hs
        refine jidStructLoop_cut rest node (part ++ [c]) hnode hc ?_
        intro hn d hd
        rcases List.mem_append.mp hd with hd | hd
        · exact hat hn d hd
        · rw [List.mem_singleton.mp hd]
          simpa [hn] using h

theorem ParsedJid.cut {jid : Jid} (h : ParsedJid jid) : CutJid jid := by
  obtain ⟨hpos, hhost, hnode, hres⟩ := h.sizes
  obtain ⟨s, hs⟩ := h
  have hcut := jidStructLoop_cut s none [] (by simp) (by simp) (by simp)
  unfold jidStruct at hs
  simp only at hs
  split at hs
  · cases hs
  · cases hs
    exact ⟨hcut.1, hcut.2.1, hcut.2.2, hpos, hhost, hnode, hres⟩

theorem bptBytes_jidSetPart {wanted : Bool} {part : Buffer} :
    bptBytes (jidSetPart wanted part) = bptBytes part ∨ bptBytes (jidSetPart wanted part) = [] := by
  unfold jidSetPart
  split
  · exact .inl rfl
  · exact .inr rfl

theorem bptSize_jidSetPart_le {wanted : Bool} {part : Buffer} :
    bptSize (jidSetPart wanted part) ≤ bptSize part := by
  unfold bptSize
  rcases @bptBytes_jidSetPart wanted part with h | h
  · exact Nat.le_of_eq (congrArg List.length h)
  · rw [h]
    exact Nat.zero_le _

theorem jidSetPart_ne_empty {wanted : Bool} {part : Buffer} : jidSetPart wanted part ≠ some [] := by
  unfold jidSetPart
  split
  · next h =>
    intro he
    simp only [Bool.and_eq_true, decide_eq_true_eq] at h
    exact h.2 (congrArg List.length (Option.some.inj he))
  · intro he
    cases he

theorem CutJid.set {jid : Jid} (h : CutJid jid) (parts : Nat) : CutJid (jidSet jid parts) where
  node := by
    intro c hc
    change c ∈ bptBytes (jidSetPart _ jid.node) at hc
    rcases @bptBytes_jidSetPart (modeHas parts jidNode) jid.node with he | he
    · exact h.node c (he ▸ hc)
    · rw [he] at hc
      cases hc
  host := h.host
  isSome := rfl
  pos := h.pos
  host_le := h.host_le
  node_le := Nat.le_trans bptSize_jidSetPart_le h.node_le
  resource_le := Nat.le_trans bptSize_jidSetPart_le h.resource_le

namespace SetJid

variable {jid : Jid}

theorem cut (h : SetJid jid) : CutJid jid := by
  induction h with
  | parsed h parts => exact h.cut.set parts
  | copied _ parts ih => exact ih.set parts

theorem resource_ne (h : SetJid jid) : jid.resource ≠ some [] := by
  cases h <;> exact jidSetPart_ne_empty

end SetJid

/-! ## Parsing the text -/

theorem jidStructLoop_plain : ∀ (s : Bytes) (node : Buffer) (part rest : Bytes),
    (∀ c ∈ s, c ≠ ch '/') → (node = none → ∀ c ∈ s, c ≠ ch '@') →
    jidStructLoop node part (s ++ rest) = jidStructLoop node (part ++ s) rest
  | [], _, part, _, _, _ => by rw [List.append_nil]; rfl
  | c :: cs, node, part, rest, hslash, hat => by
    have hs : c ≠ ch '/' := hslash c List.mem_cons_self
    have ha : (node.isNone && c == ch '@') = false := by
      cases node with
      | none => simpa using hat rfl c List.mem_cons_self
      | some _ => rfl
    rw [List.cons_append, jidStructLoop, ha, if_neg Bool.false_ne_true, if_neg (by simpa using hs),
      jidStructLoop_plain cs node (part ++ [c]) rest
        (fun d hd => hslash d (List.mem_cons_of_mem _ hd))
        (fun hn d hd => hat hn d (List.mem_cons_of_mem _ hd)),
      List.append_assoc]
    rfl

/-- The text of the resource with its separator. -/
def resourceText (resource : Buffer) : Bytes :=
  if bptSize resource = 0 then [] else ch '/' :: bptBytes resource

/-- Nothing is cut in the host once the node is known. -/
theorem jidStructLoop_host {node : Buffer} {part host : Bytes} {resource : Buffer}
    (hslash : ∀ c ∈ host, c ≠ ch '/') (hat : node = none → ∀ c ∈ host, c ≠ ch '@')
    (hres : resource ≠ some []) :
    jidStructLoop node part (host ++ resourceText resource)
      = { node := node, host := some (part ++ host), resource := resource } := by
  rw [jidStructLoop_plain host node part _ hslash hat]
  cases resource with
  | none => rfl
  | some r =>
    have hr : bptSize (some r) ≠ 0 := fun h0 =>
      hres (congrArg some (List.length_eq_zero_iff.mp h0))
    have hsep : (ch '/' == ch '@') = false := by decide
    rw [resourceText, if_neg hr, jidStructLoop, hsep, Bool.and_false, if_neg Bool.false_ne_true,
      if_pos (beq_self_eq_true _)]
    rfl

theorem jidStructLoop_node {node host : Bytes} {resource : Buffer}
    (hnode : ∀ c ∈ node, c ≠ ch '@' ∧ c ≠ ch '/') (hslash : ∀ c ∈ host, c ≠ ch '/')
    (hres : resource ≠ some []) :
    jidStructLoop none [] (node ++ ch '@' :: (host ++ resourceText resource))
      = { node := some node, host := some host, resource := resource } := by
  rw [jidStructLoop_plain node none [] _ (fun c hc => (hnode c hc).2)
    (fun _ c hc => (hnode c hc).1), List.nil_append, jidStructLoop]
  rw [show ((none : Buffer).isNone && ch '@' == ch '@') = true from rfl, if_pos rfl]
  exact jidStructLoop_host hslash (by simp) hres

theorem jidStr_none {jid : Jid} (h : jid.node = none) :
    jidStr jid = bptBytes jid.host ++ resourceText jid.resource := by
  unfold jidStr resourceText
  rw [h]
  rfl

theorem jidStr_some {jid : Jid} {n : Bytes} (h : jid.node = some n) :
    jidStr jid = n ++ ch '@' :: (bptBytes jid.host ++ resourceText jid.resource) := by
  unfold jidStr resourceText
  rw [h]
  simp

theorem length_jidStr {jid : Jid} (h : CutJid jid) : (jidStr jid).length ≤ maxJidSize := by
  have hnode := h.node_le
  have hhost := h.host_le
  have hres := h.resource_le
  have hmax : maxJidSize = maxJidPartSize * 3 + 2 := rfl
  have htail : (resourceText jid.resource).length ≤ bptSize jid.resource + 1 := by
    unfold resourceText
    split
    · exact Nat.zero_le _
    · exact Nat.le_refl _
  cases hn : jid.node with
  | none =>
    rw [jidStr_none hn, List.length_append]
    unfold bptSize at *
    omega
  | some n =>
    rw [hn, bptSize_some] at hnode
    rw [jidStr_some hn, List.length_append, List.length_cons, List.length_append]
    unfold bptSize at *
    omega

section Texts

variable {jid : Jid}

/-- `jid_struct` takes what has been cut within the limits. -/
theorem jidStruct_of_loop {s : Bytes} (hloop : jidStructLoop none [] s = jid)
    (hpos : 0 < bptSize jid.host) (hhost : bptSize jid.host ≤ maxJidPartSize)
    (hnode : bptSize jid.node ≤ maxJidPartSize) (hres : bptSize jid.resource ≤ maxJidPartSize) :
    jidStruct s = some jid := by
  unfold jidStruct
  simp only [hloop]
  rw [if_neg]
  simp only [bptBlank, Bool.or_eq_true, beq_iff_eq, decide_eq_true_eq, not_or]
  omega

/-- **The text of a kept JID parses to the same JID, unless its node-less host has an `@`.** -/
theorem jidStruct_jidStr (h : SetJid jid)
    (hat : jid.node = none → ch '@' ∉ bptBytes jid.host) : jidStruct (jidStr jid) = some jid := by
  have hcut := h.cut
  refine jidStruct_of_loop ?_ hcut.pos hcut.host_le hcut.node_le hcut.resource_le
  have hhost : some (bptBytes jid.host) = jid.host := by
    obtain ⟨host, hhost⟩ := Option.isSome_iff_exists.mp hcut.isSome
    rw [hhost]
    rfl
  cases hn : jid.node with
  | none =>
    have hloop := @jidStructLoop_host none [] _ _ hcut.host
      (fun _ c hc he => hat hn (he ▸ hc)) h.resource_ne
    rw [jidStr_none hn, hloop, List.nil_append, hhost, ← hn]
  | some n =>
    have hnode := hcut.node
    rw [hn, bptBytes_some] at hnode
    rw [jidStr_some hn, jidStructLoop_node hnode hcut.host h.resource_ne, hhost, ← hn]

/-- A JID without a node whose host has its only `@` at the end. -/
def EndsAtSign (jid : Jid) : Prop :=
  jid.node = none ∧ ∃ s, ch '@' ∉ s ∧ bptBytes jid.host = s ++ [ch '@']

/-- The text of a JID without a node is cut at the first `@` of its host. -/
theorem jidStructLoop_jidStr_split {s t : Bytes} (h : SetJid jid) (hn : jid.node = none)
    (hs : ch '@' ∉ s) (hhost : bptBytes jid.host = s ++ ch '@' :: t) :
    jidStructLoop none [] (jidStr jid)
      = { node := some s, host := some t, resource := jid.resource } := by
  have hslash := h.cut.host
  rw [hhost] at hslash
  rw [jidStr_none hn, hhost, List.append_assoc, List.cons_append]
  refine jidStructLoop_node (fun c hc => ⟨fun he => hs (he ▸ hc), hslash c ?_⟩) ?_ h.resource_ne
  · exact List.mem_append_left _ hc
  · exact fun c hc => hslash c (List.mem_append_right _ (List.mem_cons_of_mem _ hc))

/-- **When the text of a kept JID is no JID.** -/
theorem jidStruct_jidStr_none_iff (h : SetJid jid) :
    jidStruct (jidStr jid) = none ↔ EndsAtSign jid := by
  constructor
  · intro hnone
    by_cases hat : jid.node = none ∧ ch '@' ∈ bptBytes jid.host
    · obtain ⟨hn, hmem⟩ := hat
      obtain ⟨s, t, hhost, hs⟩ := List.eq_append_cons_of_mem hmem
      refine ⟨hn, s, hs, ?_⟩
      cases t with
      | nil => exact hhost
      | cons c t =>
        -- something follows the first `@`, so the text is a JID
        have hle := h.cut.host_le
        unfold bptSize at hle
        rw [hhost, List.length_append, List.length_cons, List.length_cons] at hle
        have hsome := jidStruct_of_loop (jidStructLoop_jidStr_split h hn hs hhost)
          (by simp) (by simp only [bptSize_some, List.length_cons]; omega)
          (by simp only [bptSize_some]; omega) h.cut.resource_le
        rw [hsome] at hnone
        cases hnone
    · rw [jidStruct_jidStr h (fun hn hmem => hat ⟨hn, hmem⟩)] at hnone
      cases hnone
  · rintro ⟨hn, s, hs, hhost⟩
    unfold jidStruct
    simp only [jidStructLoop_jidStr_split (t := []) h hn hs hhost]
    rfl

end Texts

/-! ## The text that has been parsed -/

/-- The node with its separator. -/
def nodeHead : Buffer → Bytes
  | none => []
  | some node => node ++ [ch '@']

/-- The resource with its separator, also when it is empty. -/
def resourceTail : Buffer → Bytes
  | none => []
  | some resource => ch '/' :: resource

/-- The text with the given parts. -/
def jidText (jid : Jid) : Bytes :=
  nodeHead jid.node ++ (bptBytes jid.host ++ resourceTail jid.resource)

theorem jidStructLoop_text : ∀ (s : Bytes) (node : Buffer) (part : Bytes),
    jidText (jidStructLoop node part s) = nodeHead node ++ (part ++ s)
  | [], _, _ => rfl
  | c :: rest, node, part => by
    rw [jidStructLoop]
    split
    · next hat =>
      obtain ⟨hnode, hc⟩ := Bool.and_eq_true_iff.mp hat
      rw [jidStructLoop_text, Option.isNone_iff_eq_none.mp hnode, beq_iff_eq.mp hc]
      simp [nodeHead]
    · split
      · next hslash =>
        rw [beq_iff_eq.mp hslash]
        rfl
      · rw [jidStructLoop_text, List.append_assoc part, List.singleton_append]

/-- **A JID that has been parsed has the text that it was parsed from.** -/
theorem text_of_struct {s : Bytes} {jid : Jid} (h : jidStruct s = some jid) : jidText jid = s := by
  unfold jidStruct at h
  dsimp only at h
  split at h
  · cases h
  · cases h
    rw [jidStructLoop_text]
    rfl

end Mukite
