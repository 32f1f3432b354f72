import Mukite.Lib.Cut
import Mukite.Properties.JidText

/-!
# The grammar of a JID

`jid_struct` goes over the text once and keeps what it is in. The grammar says the same in two
cuts: at the first `/`, and what is before it at its first `@` (`jidStructLoop_grammar`).

The sizes of the parts are `int`s in the program. A part of a text that is shorter than `2 ^ 31`
bytes has the size it has (`jidStructInt_eq`), and no buffer holds a longer text.
-/

namespace Mukite

/-- What stands before the resource. -/
def bareText (s : Bytes) : Bytes := Cut.front (ch '/') s

/-- The parts of a text by the grammar. A part whose separator is missing is a null pointer. -/
def grammarJid (s : Bytes) : Jid where
  node := (Cut.back (ch '@') (bareText s)).map (fun _ => Cut.front (ch '@') (bareText s))
  host := some ((Cut.back (ch '@') (bareText s)).getD (bareText s))
  resource := Cut.back (ch '/') s

/-- The limits of the parts. -/
def WithinLimits (jid : Jid) : Prop :=
  0 < bptSize jid.host ∧ bptSize jid.host ≤ maxJidPartSize ∧ bptSize jid.node ≤ maxJidPartSize ∧
    bptSize jid.resource ≤ maxJidPartSize

instance (jid : Jid) : Decidable (WithinLimits jid) :=
  inferInstanceAs (Decidable (_ ∧ _ ∧ _ ∧ _))

/-- Behind the node the host goes up to the `/`. -/
theorem jidStructLoop_afterNode (node : Bytes) (s : Bytes) : ∀ part : Bytes,
    jidStructLoop (some node) part s = { node := some node
                                         host := some (part ++ Cut.front (ch '/') s)
                                         resource := Cut.back (ch '/') s } := by
  induction s with
  | nil =>
    intro part
    simp [jidStructLoop]
  | cons c rest ih =>
    intro part
    rw [jidStructLoop, Option.isNone_some, Bool.false_and, if_neg Bool.false_ne_true]
    by_cases hslash : c = ch '/'
    · subst hslash
      simp
    · rw [if_neg (by simpa using hslash), ih, Cut.front_cons_ne hslash, Cut.back_cons_ne hslash]
      simp

/-- As long as no `@` has come, everything is the host, and it may still become the node. -/
theorem jidStructLoop_beforeNode (s : Bytes) : ∀ part : Bytes,
    jidStructLoop none part s =
      { node := (grammarJid s).node.map (part ++ ·)
        host := some ((Cut.back (ch '@') (bareText s)).getD (part ++ bareText s))
        resource := (grammarJid s).resource } := by
  have hne : ch '@' ≠ ch '/' := by decide
  induction s with
  | nil =>
    intro part
    simp [jidStructLoop, grammarJid, bareText]
  | cons c rest ih =>
    intro part
    unfold grammarJid bareText at ih ⊢
    rw [jidStructLoop]
    by_cases hat : c = ch '@'
    · -- the host begins here
      subst hat
      rw [if_pos (by simp), jidStructLoop_afterNode, Cut.front_cons_ne hne, Cut.back_cons_ne hne]
      simp
    · rw [if_neg (by simpa using hat)]
      by_cases hslash : c = ch '/'
      · subst hslash
        simp
      · rw [if_neg (by simpa using hslash), ih, Cut.front_cons_ne hslash,
          Cut.back_cons_ne hslash, Cut.front_cons_ne hat, Cut.back_cons_ne hat]
        simp [Function.comp_def]

/-- **One pass finds the parts of the two cuts.** -/
theorem jidStructLoop_grammar (s : Bytes) : jidStructLoop none [] s = grammarJid s := by
  rw [jidStructLoop_beforeNode]
  simp [grammarJid, Function.comp_def]

theorem jidStruct_eq (s : Bytes) :
    jidStruct s = if WithinLimits (grammarJid s) then some (grammarJid s) else none := by
  unfold jidStruct
  rw [jidStructLoop_grammar]
  by_cases h : WithinLimits (grammarJid s)
  · rw [if_pos h]
    unfold WithinLimits at h
    refine if_neg ?_
    simp only [bptBlank, Bool.or_eq_true, beq_iff_eq, decide_eq_true_eq, not_or]
    omega
  · rw [if_neg h]
    unfold WithinLimits at h
    refine if_pos ?_
    simp only [bptBlank, Bool.or_eq_true, beq_iff_eq, decide_eq_true_eq]
    omega

theorem grammarJid_of_struct {s : Bytes} {jid : Jid} (h : jidStruct s = some jid) :
    jid = grammarJid s := by
  rw [jidStruct_eq] at h
  split at h
  · exact (Option.some.inj h).symm
  · cases h

/-- A node is there if and only if its separator is. -/
theorem grammarJid_node_none (s : Bytes) : (grammarJid s).node = none ↔ ch '@' ∉ bareText s := by
  unfold grammarJid
  rw [Option.map_eq_none_iff, Cut.back_eq_none_iff]

/--
**The grammar of a JID.** For every text, `jid_struct` succeeds if and only if the cut at the first
`/`, and of what is before it at its first `@`, leaves a host that is not empty and no part above
the limit. The JID has exactly these parts, and a part is null exactly if its separator is absent.
-/
theorem jidStruct_grammar (s : Bytes) :
    ((jidStruct s).isSome ↔ WithinLimits (grammarJid s)) ∧
      ∀ jid, jidStruct s = some jid → jid = grammarJid s ∧
        (jid.node = none ↔ ch '@' ∉ bareText s) ∧ (jid.resource = none ↔ ch '/' ∉ s) := by
  refine ⟨?_, fun jid h => ?_⟩
  · rw [jidStruct_eq]
    split
    · next h => simp [h]
    · next h => simp [h]
  · obtain rfl := grammarJid_of_struct h
    exact ⟨rfl, grammarJid_node_none s, Cut.back_eq_none_iff⟩

/-- The `@` behind the first `/` belongs to the resource, and so does the second `/`. -/
theorem jidStruct_grammar_separators :
    ∃ jid, jidStruct (lit "a@b@c/d@e/") = some jid ∧ jid.resource = some (lit "d@e/") ∧
      jid.host = some (lit "b@c") := by
  obtain ⟨hiff, hparts⟩ := jidStruct_grammar (lit "a@b@c/d@e/")
  obtain ⟨jid, hjid⟩ := Option.isSome_iff_exists.mp (hiff.mpr (by decide))
  obtain ⟨rfl, -, -⟩ := hparts jid hjid
  exact ⟨_, hjid, by decide, by decide⟩

/-! ## Sizes as `int`s -/

/-- `BPT_SIZE` with its cast. -/
def bptSizeInt (b : Buffer) : Int := cInt (bptSize b)

/-- `jid_struct` with the casts of `BPT_SIZE`. -/
def jidStructInt (s : Bytes) : Option Jid :=
  let jid := jidStructLoop none [] s
  if bptSizeInt jid.host = 0 ∨ maxJidPartSize < bptSizeInt jid.host ∨
      maxJidPartSize < bptSizeInt jid.node ∨ maxJidPartSize < bptSizeInt jid.resource then none
  else some jid

/-- No part is longer than the text. -/
theorem bptSize_grammarJid_le (s : Bytes) : bptSize (grammarJid s).host ≤ s.length ∧
    bptSize (grammarJid s).node ≤ s.length ∧ bptSize (grammarJid s).resource ≤ s.length := by
  have htext : jidText (grammarJid s) = s := by
    rw [← jidStructLoop_grammar]
    exact jidStructLoop_text s none []
  have hlen := congrArg List.length htext
  unfold jidText at hlen
  rw [List.length_append, List.length_append] at hlen
  have hnode : bptSize (grammarJid s).node ≤ (nodeHead (grammarJid s).node).length := by
    cases (grammarJid s).node with
    | none => exact Nat.le_refl 0
    | some node => simp [nodeHead]
  have hres : bptSize (grammarJid s).resource ≤ (resourceTail (grammarJid s).resource).length := by
    cases (grammarJid s).resource with
    | none => exact Nat.le_refl 0
    | some resource => simp [resourceTail]
  have hhost : bptSize (grammarJid s).host = (bptBytes (grammarJid s).host).length := rfl
  omega

/-- **The casts change nothing in a text that a buffer can hold.** -/
theorem jidStructInt_eq {s : Bytes} (h : s.length < 2 ^ 31) : jidStructInt s = jidStruct s := by
  obtain ⟨hhost, hnode, hres⟩ := bptSize_grammarJid_le s
  have hint : ∀ b : Buffer, bptSize b ≤ s.length → bptSizeInt b = bptSize b :=
    fun b hb => cInt_eq ⟨by omega, by omega⟩
  rw [jidStruct_eq]
  unfold jidStructInt
  rw [jidStructLoop_grammar]
  dsimp only
  rw [hint _ hhost, hint _ hnode, hint _ hres]
  by_cases hwithin : WithinLimits (grammarJid s)
  · rw [if_pos hwithin]
    unfold WithinLimits at hwithin
    exact if_neg (by omega)
  · rw [if_neg hwithin]
    unfold WithinLimits at hwithin
    exact if_pos (by omega)

end Mukite
