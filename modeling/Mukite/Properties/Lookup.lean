import Mukite.Affiliation

/-!
# Which affiliation a JID has

`affiliationss_get_by_jid` against its purpose: an entry of the JID itself decides, else an entry
for its whole domain, the lowest affiliation first (`specAffiliation`).

* `affiliationssGetByJid_eq` — what the two passes over the lists compute, in terms of keys
* `lookup_eq_spec_iff` — exactly when that is the affiliation the JID should have
-/

namespace Mukite

/-! ## The purpose -/

/-- The lowest of the five lists with an entry whose JID satisfies `p`. -/
def lowestList (lists : Affiliations) (p : Jid → Bool) : Option Affil :=
  affilAll.find? (fun a => (lists a).items.any (fun entry => p entry.jid))

/-- An entry of the JID itself: same node, same host. -/
def ownEntry (jid entry : Jid) : Bool := bareKey entry == bareKey jid

/-- Any entry of the same host. -/
def hostEntry (jid entry : Jid) : Bool := hostKey entry == hostKey jid

/-- An entry for the whole domain of the JID. -/
def domainEntry (jid entry : Jid) : Bool := entry.node.isNone && hostEntry jid entry

/-- An entry of one user of the domain of the JID. -/
def userEntry (jid entry : Jid) : Bool := entry.node.isSome && hostEntry jid entry

/-- The affiliation of a list that was found, or what holds without one. -/
def rankOr (list : Option Affil) (otherwise : Int) : Int := (list.map Affil.toInt).getD otherwise

@[simp] theorem rankOr_some (a : Affil) (otherwise : Int) : rankOr (some a) otherwise = a.toInt :=
  rfl
@[simp] theorem rankOr_none (otherwise : Int) : rankOr none otherwise = otherwise := rfl

/-- The affiliation that a JID below the ACL admins should have. -/
def specAffiliation (lists : Affiliations) (jid : Jid) : Int :=
  rankOr (lowestList lists (ownEntry jid)) (rankOr (lowestList lists (domainEntry jid)) affilNone)

/-! ## The lowest list -/

section Lowest

variable {lists : Affiliations} {p q : Jid → Bool} {a b : Affil}

/-- Whether a list has an entry whose JID satisfies `p`. -/
def Holds (lists : Affiliations) (p : Jid → Bool) (a : Affil) : Prop :=
  ∃ entry ∈ (lists a).items, p entry.jid = true

theorem any_iff_holds :
    (lists a).items.any (fun entry => p entry.jid) = true ↔ Holds lists p a := by
  simp [Holds]

theorem mem_affilAll : ∀ a : Affil, a ∈ affilAll := by decide

/-- In a strictly increasing list the first hit is the least one. -/
theorem find?_least {f : Affil → Bool} : ∀ {l : List Affil}, l.Pairwise (· < ·) →
    l.find? f = some a → f a = true ∧ ∀ b ∈ l, b < a → f b = false
  | [], _, h => by cases h
  | c :: l, hl, h => by
    rw [List.pairwise_cons] at hl
    rw [List.find?_cons] at h
    split at h
    · next hc =>
      cases h
      refine ⟨hc, fun b hb hlt => ?_⟩
      rcases List.mem_cons.mp hb with rfl | hb
      · exact absurd hlt (lt_irrefl _)
      · exact absurd hlt (lt_asymm (hl.1 b hb))
    · next hc =>
      obtain ⟨ha, hmin⟩ := find?_least hl.2 h
      refine ⟨ha, fun b hb hlt => ?_⟩
      rcases List.mem_cons.mp hb with rfl | hb
      · simpa using hc
      · exact hmin b hb hlt

/-- **The lowest list has such an entry, and no list below it has one.** -/
theorem lowestList_some (h : lowestList lists p = some a) :
    Holds lists p a ∧ ∀ b, Holds lists p b → a ≤ b := by
  obtain ⟨ha, hmin⟩ := find?_least (by decide) h
  refine ⟨any_iff_holds.mp ha, fun b hb => ?_⟩
  by_contra hlt
  have hf := hmin b (mem_affilAll b) (not_le.mp hlt)
  rw [any_iff_holds.mpr hb] at hf
  cases hf

theorem lowestList_none (h : lowestList lists p = none) (a : Affil) : ¬ Holds lists p a := by
  intro ha
  exact List.find?_eq_none.mp h a (mem_affilAll a) (any_iff_holds.mpr ha)

theorem lowestList_eq_some_iff :
    lowestList lists p = some a ↔ Holds lists p a ∧ ∀ b, Holds lists p b → a ≤ b := by
  refine ⟨lowestList_some, fun ⟨ha, hmin⟩ => ?_⟩
  cases h : lowestList lists p with
  | none => exact absurd ha (lowestList_none h a)
  | some c =>
    obtain ⟨hc, hcmin⟩ := lowestList_some h
    rw [le_antisymm (hcmin a ha) (hmin c hc)]

theorem lowestList_eq_none_iff : lowestList lists p = none ↔ ∀ a, ¬ Holds lists p a := by
  refine ⟨lowestList_none, fun hno => ?_⟩
  cases h : lowestList lists p with
  | none => rfl
  | some a => exact absurd (lowestList_some h).1 (hno a)

end Lowest

/-! ## What the code computes -/

theorem firstListWith_bare (lists : Affiliations) (jid : Jid) :
    firstListWith lists jid (jidNode ||| jidHost) = lowestList lists (ownEntry jid) := by
  unfold firstListWith lowestList affiliationsFindByJid
  congr
  funext a
  rw [List.findIdx?_isSome]
  congr
  funext entry
  rw [ownEntry, Bool.eq_iff_iff, beq_iff_eq, beq_iff_eq, jidCmp_bare]

theorem firstListWith_host (lists : Affiliations) (jid : Jid) :
    firstListWith lists jid jidHost = lowestList lists (hostEntry jid) := by
  unfold firstListWith lowestList affiliationsFindByJid
  congr
  funext a
  rw [List.findIdx?_isSome]
  congr
  funext entry
  rw [hostEntry, Bool.eq_iff_iff, beq_iff_eq, beq_iff_eq, jidCmp_host]

/-- **The two passes**: an entry of the JID itself, else any entry of its host. -/
theorem affiliationssGetByJid_eq {lists : Affiliations} {acl : ACLConfig} {jid : Jid}
    (h : aclRole acl jid < aclMucAdmin) :
    affiliationssGetByJid lists acl jid =
      rankOr (lowestList lists (ownEntry jid))
        (rankOr (lowestList lists (hostEntry jid)) affilNone) := by
  unfold affiliationssGetByJid
  rw [if_neg (not_le.mpr h), firstListWith_bare, firstListWith_host]
  cases lowestList lists (ownEntry jid) <;> cases lowestList lists (hostEntry jid) <;> rfl

/-! ## When it is the affiliation the JID should have -/

theorem holds_host_iff {lists : Affiliations} {jid : Jid} {a : Affil} :
    Holds lists (hostEntry jid) a ↔
      Holds lists (userEntry jid) a ∨ Holds lists (domainEntry jid) a := by
  unfold Holds
  constructor
  · rintro ⟨entry, hm, he⟩
    cases hn : entry.jid.node with
    | none => exact .inr ⟨entry, hm, by simp [domainEntry, hn, he]⟩
    | some n => exact .inl ⟨entry, hm, by simp [userEntry, hn, he]⟩
  · rintro (⟨entry, hm, he⟩ | ⟨entry, hm, he⟩)
    · simp only [userEntry, Bool.and_eq_true] at he
      exact ⟨entry, hm, he.2⟩
    · simp only [domainEntry, Bool.and_eq_true] at he
      exact ⟨entry, hm, he.2⟩

/--
The states in which no other user's entry gets in the way of a JID: it has an entry of its own,
or no user of its host is listed below the first entry for the whole domain.

The last case is a coincidence: without an entry for the domain the lowest user of the host is
in the list `AFFIL_NONE`, which the program itself leaves empty.
-/
def NotOvershadowed (lists : Affiliations) (jid : Jid) : Prop :=
  (∃ a, Holds lists (ownEntry jid) a) ∨
    (∀ a, Holds lists (userEntry jid) a → ∃ b ≤ a, Holds lists (domainEntry jid) b) ∨
    ((∀ b, ¬ Holds lists (domainEntry jid) b) ∧ Holds lists (userEntry jid) listNone ∧
      ¬ Holds lists (userEntry jid) listOutcast)

theorem toInt_inj {a b : Affil} : a.toInt = b.toInt ↔ a = b := by
  unfold Affil.toInt
  rw [Int.ofNat_inj, Fin.ext_iff]

/-- Without an entry of its own: the host pass against the entries for the domain. -/
theorem hostPass_eq_iff {lists : Affiliations} {jid : Jid} :
    rankOr (lowestList lists (hostEntry jid)) affilNone =
        rankOr (lowestList lists (domainEntry jid)) affilNone ↔
      (∀ a, Holds lists (userEntry jid) a → ∃ b ≤ a, Holds lists (domainEntry jid) b) ∨
      ((∀ b, ¬ Holds lists (domainEntry jid) b) ∧ Holds lists (userEntry jid) listNone ∧
        ¬ Holds lists (userEntry jid) listOutcast) := by
  cases hh : lowestList lists (hostEntry jid) with
  | none =>
    have hno := lowestList_none hh
    have hd : lowestList lists (domainEntry jid) = none :=
      lowestList_eq_none_iff.mpr (fun a ha => hno a (holds_host_iff.mpr (.inr ha)))
    simp only [hd, true_iff]
    exact .inl (fun a ha => absurd (holds_host_iff.mpr (.inl ha)) (hno a))
  | some h =>
    obtain ⟨hholds, hmin⟩ := lowestList_some hh
    cases hd : lowestList lists (domainEntry jid) with
    | some d =>
      obtain ⟨hdholds, hdmin⟩ := lowestList_some hd
      simp only [rankOr_some, toInt_inj]
      constructor
      · rintro rfl
        exact .inl (fun a ha => ⟨h, hmin a (holds_host_iff.mpr (.inl ha)), hdholds⟩)
      · rintro (hall | ⟨hno, -, -⟩)
        · have hle : h ≤ d := hmin d (holds_host_iff.mpr (.inr hdholds))
          rcases holds_host_iff.mp hholds with hu | hdom
          · obtain ⟨b, hb, hbd⟩ := hall h hu
            exact le_antisymm hle ((hdmin b hbd).trans hb)
          · exact le_antisymm hle (hdmin h hdom)
        · exact absurd hdholds (hno d)
    | none =>
      have hno := lowestList_none hd
      have hu : Holds lists (userEntry jid) h :=
        (holds_host_iff.mp hholds).resolve_right (hno h)
      have hone : h.toInt = affilNone ↔ h = listNone := @toInt_inj h listNone
      simp only [rankOr_some, rankOr_none, hone]
      constructor
      · rintro rfl
        refine .inr ⟨hno, hu, fun h0 => ?_⟩
        exact absurd (hmin listOutcast (holds_host_iff.mpr (.inl h0))) (by decide)
      · rintro (hall | ⟨-, h1, h0⟩)
        · obtain ⟨b, -, hb⟩ := hall h hu
          exact absurd hb (hno b)
        · have hle : h ≤ listNone := hmin listNone (holds_host_iff.mpr (.inl h1))
          have hne : h ≠ listOutcast := fun he => h0 (he ▸ hu)
          have hone : ∀ a : Affil, a ≤ listNone → a ≠ listOutcast → a = listNone := by decide
          exact hone h hle hne

/-- **The lookup gives the affiliation a JID should have exactly when no entry of another user of
its host gets in the way.** -/
theorem lookup_eq_spec_iff (lists : Affiliations) (acl : ACLConfig) (jid : Jid)
    (h : aclRole acl jid < aclMucAdmin) :
    affiliationssGetByJid lists acl jid = specAffiliation lists jid ↔
      NotOvershadowed lists jid := by
  rw [affiliationssGetByJid_eq h, specAffiliation, NotOvershadowed]
  cases ho : lowestList lists (ownEntry jid) with
  | some a =>
    simp only [rankOr_some, true_iff]
    exact .inl ⟨a, (lowestList_some ho).1⟩
  | none =>
    have hno := lowestList_none ho
    have hnone : ¬ ∃ a, Holds lists (ownEntry jid) a := fun ⟨a, ha⟩ => hno a ha
    simp only [rankOr_none, hostPass_eq_iff, hnone, false_or]

/-! ## A ban that hits somebody else -/

def bareJid (node host : String) : Jid :=
  { node := some (lit node), host := some (lit host), resource := none }

/-- Only `bob@h` is banned. -/
def bannedBob : Affiliations :=
  setList (fun _ => .init 10) listOutcast
    { items := [{ jid := bareJid "bob" "h", reasonNode := none }], size := 1, maxSize := 10 }

/-- The ban of `bob@h` makes `alice@h` an outcast, who should have no affiliation. -/
theorem lookup_bannedBob :
    aclRole openAcl (bareJid "alice" "h") < aclMucAdmin ∧
      affiliationssGetByJid bannedBob openAcl (bareJid "alice" "h") = affilOutcast ∧
      specAffiliation bannedBob (bareJid "alice" "h") = affilNone := by
  decide

/-- The result at `bob@h`, who has an entry of his own. -/
theorem lookup_eq_spec_bob :
    affiliationssGetByJid bannedBob openAcl (bareJid "bob" "h")
      = specAffiliation bannedBob (bareJid "bob" "h") :=
  (lookup_eq_spec_iff bannedBob openAcl (bareJid "bob" "h") (by decide)).mpr
    (.inl ⟨listOutcast, { jid := bareJid "bob" "h", reasonNode := none }, List.mem_singleton.mpr rfl,
      by decide⟩)

end Mukite
