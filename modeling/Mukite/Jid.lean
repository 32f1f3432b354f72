import Mukite.Buffer

/-!
# JIDs

`src/jid.h`, `src/jid.c`. The parts of a JID are buffers: a missing part is a null pointer, which
the comparison tells apart from an empty part, while `jid_set` drops an empty part.

Each comparison mode the program uses is equality of a key (`jidCmp_bare`, `jidCmp_host`,
`jidCmp_full`), so it is an equivalence although the node and the host ignore case.
-/

namespace Mukite

structure Jid where
  node : Buffer
  host : Buffer
  resource : Buffer
deriving DecidableEq, Repr

def maxJidPartSize : Nat := 1023
def maxJidSize : Nat := maxJidPartSize * 3 + 2

def jidNode : Nat := 1
def jidHost : Nat := 2
def jidResource : Nat := 4
def jidFull : Nat := jidNode ||| jidHost ||| jidResource
def jidCmpNullwc : Nat := 8

def jidInit : Jid := { node := none, host := none, resource := none }

/-- `JID_EMPTY`, `jid_empty`. -/
def jidEmpty (jid : Jid) : Bool := jid.host.isNone

/-! ## Parsing -/

/--
The loop of `jid_struct`. `node` is set as soon as `part` is past `JID_NODE`; `part` holds the
characters since `part_start`.
-/
def jidStructLoop (node : Buffer) (part : Bytes) : Bytes → Jid
  | [] => { node := node, host := some part, resource := none }
  | c :: rest =>
    if node.isNone && c == ch '@' then jidStructLoop (some part) [] rest
    else if c == ch '/' then { node := node, host := some part, resource := some rest }
    else jidStructLoop node (part ++ [c]) rest

/-- `jid_struct`, `none` when it returns `FALSE`. -/
def jidStruct (jidString : Bytes) : Option Jid :=
  let jid := jidStructLoop none [] jidString
  if bptBlank jid.host || maxJidPartSize < bptSize jid.host ||
      maxJidPartSize < bptSize jid.node || maxJidPartSize < bptSize jid.resource then none
  else some jid

/-- The JIDs that `jid_struct` produces. -/
def ParsedJid (jid : Jid) : Prop := ∃ s, jidStruct s = some jid

namespace ParsedJid

variable {jid : Jid}

/-- Every part is within its limit, and the host is not empty. -/
theorem sizes (h : ParsedJid jid) : 0 < bptSize jid.host ∧ bptSize jid.host ≤ maxJidPartSize ∧
    bptSize jid.node ≤ maxJidPartSize ∧ bptSize jid.resource ≤ maxJidPartSize := by
  obtain ⟨s, hs⟩ := h
  unfold jidStruct at hs
  simp only at hs
  split at hs
  · cases hs
  · next hn =>
    cases hs
    simp only [bptBlank, Bool.or_eq_true, beq_iff_eq, decide_eq_true_eq, not_or] at hn
    omega

theorem resource_le (h : ParsedJid jid) : bptSize jid.resource ≤ maxJidPartSize := h.sizes.2.2.2

end ParsedJid

/-! ## Comparison -/

/-- `tolower` in the C locale. -/
def toLower (c : UInt8) : UInt8 := if 65 ≤ c && c ≤ 90 then c + 32 else c

/-- `strncasecmp`, zero when it finds no difference. It stops at a terminator. -/
def strncasecmp : Nat → Bytes → Bytes → Int
  | 0, _, _ => 0
  | _ + 1, [], [] => 0
  | _ + 1, [], _ :: _ => -1
  | _ + 1, _ :: _, [] => 1
  | n + 1, c :: cs, d :: ds =>
    if toLower c != toLower d then (toLower c).toNat - (toLower d).toNat
    else if c == 0 then 0
    else strncasecmp n cs ds

/-- Whether two nodes or two hosts differ, once their null pointers agree. -/
def caseDiffers (b₁ b₂ : Buffer) : Bool :=
  bptSize b₁ != bptSize b₂ || strncasecmp (bptSize b₁) (bptBytes b₁) (bptBytes b₂) != 0

/-- `mode & part`, as a truth value. -/
def modeHas (mode part : Nat) : Bool := mode &&& part != 0

/-- `jid_cmp`. Under `JID_CMP_NULLWC` a missing node or resource of `jid1` matches anything. -/
def jidCmp (jid1 jid2 : Jid) (mode : Nat) : Nat :=
  if modeHas mode jidNode && (jid1.node.isSome || !modeHas mode jidCmpNullwc) &&
      (jid1.node.isNone != jid2.node.isNone || caseDiffers jid1.node jid2.node) then 1
  else if modeHas mode jidHost && caseDiffers jid1.host jid2.host then 1
  else if modeHas mode jidResource && (jid1.resource.isSome || !modeHas mode jidCmpNullwc) &&
      (jid1.resource.isNone != jid2.resource.isNone ||
        bptSize jid1.resource != bptSize jid2.resource ||
        bptBytes jid1.resource != bptBytes jid2.resource) then 1
  else 0

/-! ## Copying and printing -/

/-- One part of the copy `jid_set` makes. -/
def jidSetPart (wanted : Bool) (part : Buffer) : Buffer :=
  if wanted && bptSize part ≠ 0 then some (bptBytes part) else none

/-- `jid_set`: the value of `dst` after it. Empty parts of the source are not copied. -/
def jidSet (src : Jid) (parts : Nat) : Jid where
  node := jidSetPart (modeHas parts jidNode) src.node
  host := some (bptBytes src.host)
  resource := jidSetPart (modeHas parts jidResource) src.resource

/--
`JID_STR` and `JID_LEN`: the text of a JID that owns its memory, as `jid_set` and
`jid_deserialize` leave it, node, host and resource with their separators in one block.
-/
def jidStr (jid : Jid) : Bytes :=
  (match jid.node with | none => [] | some n => n ++ [ch '@']) ++ bptBytes jid.host ++
    (if bptSize jid.resource = 0 then [] else ch '/' :: bptBytes jid.resource)

/-! ## The comparison modes as keys -/

/-- What `strncasecmp` sees of a text, together with its size. -/
def caseKey (b : Buffer) : Nat × Bytes :=
  (bptSize b, ((bptBytes b).takeWhile (· != 0)).map toLower)

/-- The key of a comparison of nodes. A missing node is not an empty one. -/
def nodeKey (jid : Jid) : Bool × Nat × Bytes := (jid.node.isNone, caseKey jid.node)

def hostKey (jid : Jid) : Nat × Bytes := caseKey jid.host

/-- The bare JID, up to case. -/
def bareKey (jid : Jid) : (Bool × Nat × Bytes) × Nat × Bytes := (nodeKey jid, hostKey jid)

/-- The full JID, up to the case of node and host. -/
def fullKey (jid : Jid) : ((Bool × Nat × Bytes) × Nat × Bytes) × Buffer :=
  (bareKey jid, jid.resource)

theorem toLower_eq_zero {c : UInt8} : toLower c = 0 ↔ c = 0 := by
  unfold toLower
  split
  · next h =>
    simp only [Bool.and_eq_true, decide_eq_true_eq, UInt8.le_iff_toNat_le] at h
    rw [← UInt8.toNat_inj, ← UInt8.toNat_inj, UInt8.toNat_add]
    simp at h ⊢
    omega
  · exact Iff.rfl

theorem strncasecmp_eq_zero_iff : ∀ (s t : Bytes), s.length = t.length →
    (strncasecmp s.length s t = 0 ↔
      (s.takeWhile (· != 0)).map toLower = (t.takeWhile (· != 0)).map toLower)
  | [], [], _ => by simp [strncasecmp]
  | c :: cs, d :: ds, h => by
    have ih := strncasecmp_eq_zero_iff cs ds (by simpa using h)
    simp only [List.length_cons, strncasecmp]
    by_cases hl : toLower c = toLower d
    · by_cases hc : c = 0
      · have hd : d = 0 := toLower_eq_zero.mp (hl ▸ toLower_eq_zero.mpr hc)
        simp [hc, hd]
      · have hd : d ≠ 0 := fun h0 => hc (toLower_eq_zero.mp (hl ▸ toLower_eq_zero.mpr h0))
        simp [hl, hc, hd, ih]
    · have hne : ((toLower c).toNat : Int) - (toLower d).toNat ≠ 0 := by
        intro h0
        exact hl (UInt8.toNat_inj.mp (by omega))
      have hkey : ((c :: cs).takeWhile (· != 0)).map toLower
          ≠ ((d :: ds).takeWhile (· != 0)).map toLower := by
        by_cases hc : c = 0 <;> by_cases hd : d = 0
        · exact absurd (by rw [hc, hd]) hl
        all_goals simp [hc, hd]
        exact fun h0 => absurd h0 hl
      simp [hl, hne, hkey]

theorem caseDiffers_eq_false_iff {b₁ b₂ : Buffer} :
    caseDiffers b₁ b₂ = false ↔ caseKey b₁ = caseKey b₂ := by
  unfold caseDiffers caseKey
  by_cases h : bptSize b₁ = bptSize b₂
  · have := strncasecmp_eq_zero_iff (bptBytes b₁) (bptBytes b₂) h
    simp only [bptSize] at h ⊢
    simp [h, ← this]
  · simp [h]

/-- **The bare comparison is equality of the bare key.** -/
theorem jidCmp_bare {jid1 jid2 : Jid} :
    jidCmp jid1 jid2 (jidNode ||| jidHost) = 0 ↔ bareKey jid1 = bareKey jid2 := by
  simp only [jidCmp, bareKey, nodeKey, hostKey, Prod.mk.injEq, ← caseDiffers_eq_false_iff,
    show modeHas (jidNode ||| jidHost) jidNode = true from rfl,
    show modeHas (jidNode ||| jidHost) jidHost = true from rfl,
    show modeHas (jidNode ||| jidHost) jidResource = false from rfl,
    show modeHas (jidNode ||| jidHost) jidCmpNullwc = false from rfl]
  cases jid1.node.isNone <;> cases jid2.node.isNone <;>
    cases caseDiffers jid1.node jid2.node <;> cases caseDiffers jid1.host jid2.host <;> simp

/-- **The comparison of hosts is equality of the host key.** -/
theorem jidCmp_host {jid1 jid2 : Jid} :
    jidCmp jid1 jid2 jidHost = 0 ↔ hostKey jid1 = hostKey jid2 := by
  simp only [jidCmp, hostKey, ← caseDiffers_eq_false_iff,
    show modeHas jidHost jidNode = false from rfl, show modeHas jidHost jidHost = true from rfl,
    show modeHas jidHost jidResource = false from rfl]
  cases caseDiffers jid1.host jid2.host <;> simp

/-- **The full comparison is equality of the full key.** -/
theorem jidCmp_full {jid1 jid2 : Jid} :
    jidCmp jid1 jid2 jidFull = 0 ↔ fullKey jid1 = fullKey jid2 := by
  have hres : (jid1.resource.isNone != jid2.resource.isNone ||
      bptSize jid1.resource != bptSize jid2.resource ||
      bptBytes jid1.resource != bptBytes jid2.resource) = (jid1.resource != jid2.resource) := by
    cases h1 : jid1.resource with
    | none => cases jid2.resource <;> simp
    | some r1 =>
      cases h2 : jid2.resource with
      | none => simp
      | some r2 =>
        by_cases h : r1 = r2
        · simp [h]
        · have hb : (r1 != r2) = true := by simpa using h
          have hs : (some r1 != some r2) = true := by simpa using h
          simp [hb, hs]
  simp only [jidCmp, fullKey, bareKey, nodeKey, hostKey, Prod.mk.injEq,
    ← caseDiffers_eq_false_iff, hres, show modeHas jidFull jidNode = true from rfl,
    show modeHas jidFull jidHost = true from rfl, show modeHas jidFull jidResource = true from rfl,
    show modeHas jidFull jidCmpNullwc = false from rfl]
  by_cases hr : jid1.resource = jid2.resource <;>
    cases jid1.node.isNone <;> cases jid2.node.isNone <;>
    cases caseDiffers jid1.node jid2.node <;> cases caseDiffers jid1.host jid2.host <;> simp [hr]

theorem caseDiffers_congr {b b₁ b₂ : Buffer} (h : caseKey b₁ = caseKey b₂) :
    caseDiffers b b₁ = caseDiffers b b₂ := by
  have hiff : caseDiffers b b₁ = false ↔ caseDiffers b b₂ = false := by
    rw [caseDiffers_eq_false_iff, caseDiffers_eq_false_iff, h]
  cases h₁ : caseDiffers b b₁ <;> cases h₂ : caseDiffers b b₂ <;> simp_all

/-- **In every mode the second JID counts by its full key only.** -/
theorem jidCmp_congr {jid jid1 jid2 : Jid} (h : fullKey jid1 = fullKey jid2) (mode : Nat) :
    jidCmp jid jid1 mode = jidCmp jid jid2 mode := by
  simp only [fullKey, bareKey, nodeKey, hostKey, Prod.mk.injEq] at h
  obtain ⟨⟨⟨hnone, hnode⟩, hhost⟩, hres⟩ := h
  unfold jidCmp
  rw [hnone, hres, caseDiffers_congr hnode, caseDiffers_congr hhost]

end Mukite
