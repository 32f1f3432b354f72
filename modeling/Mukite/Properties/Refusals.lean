import Mukite.Properties.ConfigForm
import Mukite.Properties.IqCases

/-!
# Why a query is refused

`route_iq` refuses a query in many places, each with an error of its own. Here they are listed as
conditions on the stanza, the room and the sender:

* `ProxyRefusal`, `GetRefusal`, `SetRefusal`: queries to an occupant, queries and requests to the
  room; `Refusal` puts them together.
* `ItemsRefusal`: a request with items is refused at the first one that may not be carried out; by
  then those before it have been.

`answerIq_refusal` says that these are the refusals of the program, with its errors.
-/

namespace Mukite

/-! ## Items -/

/-- The guards of `affiliationss_add` are against an entry. -/
def FilingRefused (lists : Affiliations) (sender : Participant) (affiliation : Affil) (jid : Jid) :
    Prop :=
  (sender.affiliation ≠ affilOwner ∧ affilAdmin ≤ affiliation.toInt) ∨
    ∃ list i, existingEntry lists jid = some (list, i) ∧
      mayChangeEntry lists (some sender) list i = false

/-- Why an item is refused. -/
inductive ItemRefusal (st : AdminState) (sender : Participant) (target : AdminTarget) :
    XMPPError → Prop
  | bad (h : badItem target = true) : ItemRefusal st sender target errorIqBad
  | nobody (role : Int) (hgood : badItem target = false) (hrole : target.role = some role)
      (h : participantsFindByNick st.room.participants target.nick = none) :
      ItemRefusal st sender target errorRecipientNotInRoom
  | role (role : Int) (addr : Nat) (receiver : Participant) (hgood : badItem target = false)
      (hrole : target.role = some role)
      (hnick : participantsFindByNick st.room.participants target.nick = some (addr, receiver))
      (h : affilAdmin ≤ receiver.affiliation ∨ (sender.affiliation < affilAdmin ∧
        (roleModerator ≤ receiver.role ∨ roleModerator ≤ role))) :
      ItemRefusal st sender target errorPrivilegeLevel
  | affiliation (affiliation : Affil) (hgood : badItem target = false) (hrole : target.role = none)
      (haffiliation : target.affiliation = some affiliation)
      (h : sender.affiliation < affilAdmin ∨
        FilingRefused st.room.affiliations sender affiliation target.jid) :
      ItemRefusal st sender target errorPrivilegeLevel

/-- Why a request is refused at one of its items. `addr` is the sender. -/
inductive ItemsRefusal (acl : ACLConfig) (addr : Nat) :
    AdminState → List ItemRead → XMPPError → Prop
  | bad {st : AdminState} {rest : List ItemRead} :
      ItemsRefusal acl addr st (.bad :: rest) errorIqBad
  | here {st : AdminState} {sender : Participant} {target : AdminTarget} {rest : List ItemRead}
      {error : XMPPError} (hs : st.room.participants.nodes.get? addr = some sender)
      (h : ItemRefusal st sender target error) :
      ItemsRefusal acl addr st (.item target :: rest) error
  | later {st st' : AdminState} {sender : Participant} {target : AdminTarget}
      {rest : List ItemRead} {error : XMPPError}
      (hs : st.room.participants.nodes.get? addr = some sender)
      (hitem : adminItem acl st sender target = .ok st')
      (h : ItemsRefusal acl addr st' rest error) :
      ItemsRefusal acl addr st (.item target :: rest) error

/-! ## Queries -/

/-- A query needs a sender who is `allowed` to make it, and maybe a content. -/
inductive Denied (query : QueryNode) (content : Bool) (allowed : Participant → Prop)
    (sender : Option (Nat × Participant)) : XMPPError → Prop
  | empty (hcontent : content = true) (h : query.empty = true) :
      Denied query content allowed sender errorIqBad
  | external (hcontent : (content && query.empty) = false) (h : sender = none) :
      Denied query content allowed sender errorExternalIq
  | privilege (n : Nat × Participant) (hcontent : (content && query.empty) = false)
      (hs : sender = some n) (h : ¬ allowed n.2) :
      Denied query content allowed sender errorPrivilegeLevel

/-- Such a query gets past these checks. -/
def PassesChecks (query : QueryNode) (content : Bool) (allowed : Participant → Prop)
    (sender : Option (Nat × Participant)) (n : Nat × Participant) : Prop :=
  (content && query.empty) = false ∧ sender = some n ∧ allowed n.2

/-- The affiliation whose entries an item asks for. -/
def NextItem.listed : NextItem → Option Affil
  | .item target _ => target.affiliation.bind fun affiliation =>
    if affiliation = listNone then none else some affiliation
  | _ => none

/-- Why a query for the room is refused. -/
def GetRefusal (room : Room) (mem : Bytes) (query : QueryNode)
    (sender : Option (Nat × Participant)) (error : XMPPError) : Prop :=
  if query.xmlns.eqLit mem "http://jabber.org/protocol/disco#info" then False
  else if query.xmlns.eqLit mem "http://jabber.org/protocol/disco#items" then
    room.hasFlag mucFlagPublicparticipants = false ∧ error = errorNotImplemented
  else if query.xmlns.eqLit mem xmlnsMucAdmin then
    Denied query true (fun p => affilAdmin ≤ p.affiliation) sender error ∨
      ∃ n, PassesChecks query true (fun p => affilAdmin ≤ p.affiliation) sender n ∧
        ∃ next, nextMucAdminItem mem query.node = some next ∧ next.listed = none ∧
          error = errorIqBad
  else if query.xmlns.eqLit mem xmlnsMucOwner then
    Denied query false (fun p => affilOwner ≤ p.affiliation) sender error
  else error = errorNotImplemented

/-- The search of an owner's request for a child that is known. -/
def ownerChild (mem : Bytes) (nodes : XmlNodeTraverser) : Option (Unit ⊕ Unit) :=
  if nodes.nodeName.eqLit mem "destroy" || nodes.nodeName.eqLit mem "x" then some (.inr ())
  else some (.inl ())

/-- Why a request to the room is refused. -/
def SetRefusal (room : Room) (mem : Bytes) (query : QueryNode) (acl : ACLConfig)
    (sender : Option (Nat × Participant)) (error : XMPPError) : Prop :=
  if query.xmlns.eqLit mem xmlnsMucAdmin then
    Denied query true (fun p => roleModerator ≤ p.role) sender error ∨
      ∃ n, PassesChecks query true (fun p => roleModerator ≤ p.role) sender n ∧
        ItemsRefusal acl n.1 { room := room, affected := [] }
          (itemReads mem (rounds mem) query.node) error
  else if query.xmlns.eqLit mem xmlnsMucOwner then
    Denied query true (fun p => affilOwner ≤ p.affiliation) sender error ∨
      ∃ n, PassesChecks query true (fun p => affilOwner ≤ p.affiliation) sender n ∧
        siblingLoop mem (fun (_ : Unit) nodes => ownerChild mem nodes) query.node ()
          = some (.inl ()) ∧ error = errorNotImplemented
  else error = errorNotImplemented

/-- Why a query to the room is refused. -/
def QueryRefusal (room : Room) (ingress : IncomingPacket) (acl : ACLConfig) (error : XMPPError) :
    Prop :=
  (findQuery ingress = some none ∧ error = errorIqBad) ∨
    ∃ query, findQuery ingress = some (some query) ∧
      if ingress.type = stanzaIqGet then
        GetRefusal room ingress.mem query
          (participantsFindByJid room.participants ingress.realFrom) error
      else if ingress.type = stanzaIqSet then
        SetRefusal room ingress.mem query acl
          (participantsFindByJid room.participants ingress.realFrom) error
      else error = errorNotImplemented

/-- Why a query to an occupant is refused. -/
inductive ProxyRefusal (room : Room) (ingress : IncomingPacket) : XMPPError → Prop
  | external (h : participantsFindByJid room.participants ingress.realFrom = none) :
      ProxyRefusal room ingress errorExternalIq
  | prohibited (hs : (participantsFindByJid room.participants ingress.realFrom).isSome = true)
      (h : room.hasFlag mucFlagIqProxy = false) : ProxyRefusal room ingress errorIqProhibited
  | nobody (hs : (participantsFindByJid room.participants ingress.realFrom).isSome = true)
      (hflag : room.hasFlag mucFlagIqProxy = true)
      (h : participantsFindByNick room.participants ingress.proxyTo.resource = none) :
      ProxyRefusal room ingress errorRecipientNotInRoom

/-- **Why a room refuses a query.** -/
def Refusal (room : Room) (ingress : IncomingPacket) (acl : ACLConfig) (error : XMPPError) : Prop :=
  if ingress.proxyTo.resource.isSome then ProxyRefusal room ingress error
  else QueryRefusal room ingress acl error

/-! ## The refusals of the program -/

/-- The error with which an answer is a bounce. -/
def IqAnswer.error? : IqAnswer → Option XMPPError
  | .refused _ error => some error
  | .answered _ iqType _ => if iqType = 0 then some errorNotImplemented else none

@[simp] theorem IqAnswer.error?_refused (room : Room) (error : XMPPError) :
    (IqAnswer.refused room error).error? = some error := rfl

@[simp] theorem IqAnswer.error?_unknown (room : Room) :
    (IqAnswer.unknown room).error? = some errorNotImplemented := rfl

theorem IqAnswer.error?_answered {st : AdminState} {iqType : Nat} {sysData : SysData}
    (h : iqType ≠ 0) : (IqAnswer.answered st iqType sysData).error? = none := if_neg h

/-- The error of a decision, if it is made and refuses. -/
def refusedWith (answer : Option IqAnswer) : Option XMPPError := answer.bind IqAnswer.error?

section Program

variable {room : Room} {ingress : IncomingPacket} {acl : ACLConfig} {st : AdminState}
  {sender : Participant} {target : AdminTarget} {error : XMPPError} {mem : Bytes}
  {query : QueryNode} {found : Option (Nat × Participant)} {addr : Nat}

theorem affiliationssAdd_eq_none {lists : Affiliations} {affiliation : Affil} {jid : Jid}
    {reasonNode : Buffer} :
    affiliationssAdd lists (some sender) affiliation jid reasonNode = none ↔
      FilingRefused lists sender affiliation jid := by
  unfold affiliationssAdd FilingRefused
  simp only [Option.any_some, Bool.and_eq_true, bne_iff_ne, decide_eq_true_eq]
  by_cases hadd : sender.affiliation ≠ affilOwner ∧ affilAdmin ≤ affiliation.toInt
  · rw [if_pos hadd]
    exact iff_of_true rfl (.inl hadd)
  · rw [if_neg hadd, or_iff_right hadd]
    cases existingEntry lists jid with
    | none => simp
    | some entry =>
      obtain ⟨list, i⟩ := entry
      cases hmay : mayChangeEntry lists (some sender) list i <;> simp [hmay]

/-- An item is refused for one of these reasons. -/
theorem adminItem_refusal : adminItem acl st sender target = .error error ↔
    ItemRefusal st sender target error := by
  unfold adminItem
  constructor
  -- the checks in the order in which the code makes them
  · intro h
    split at h
    · next hbad =>
      cases h
      exact .bad hbad
    · next hgood =>
      have hgood : badItem target = false := by simpa using hgood
      cases hrole : target.role with
      | some role =>
        rw [hrole] at h
        dsimp only at h
        unfold roleItem at h
        split at h
        · next hnick =>
          cases h
          exact .nobody role hgood hrole hnick
        · next b receiver hnick =>
          split at h
          · next hmay =>
            cases h
            exact .role role b receiver hgood hrole hnick hmay
          · cases h
      | none =>
        cases haffiliation : target.affiliation with
        | none =>
          rw [hrole, haffiliation] at h
          cases h
        | some affiliation =>
          rw [hrole, haffiliation] at h
          dsimp only at h
          unfold affiliationItem at h
          split at h
          · next hlow =>
            cases h
            exact .affiliation affiliation hgood hrole haffiliation (.inl hlow)
          · split at h
            · next hadd =>
              cases h
              exact .affiliation affiliation hgood hrole haffiliation
                (.inr (affiliationssAdd_eq_none.mp hadd))
            · cases h
  · intro h
    cases h with
    | bad h => rw [if_pos h]
    | nobody role hgood hrole h =>
      rw [hgood, if_neg Bool.false_ne_true, hrole]
      dsimp only
      rw [roleItem, h]
    | role role b receiver hgood hrole hnick h =>
      rw [hgood, if_neg Bool.false_ne_true, hrole]
      dsimp only
      rw [roleItem, hnick]
      exact if_pos h
    | affiliation affiliation hgood hrole haffiliation h =>
      rw [hgood, if_neg Bool.false_ne_true, hrole, haffiliation]
      dsimp only
      unfold affiliationItem
      split
      · rfl
      · next hhigh =>
        rw [affiliationssAdd_eq_none.mpr (h.resolve_left hhigh)]

/-- A request whose first item has been read. -/
theorem itemsRefusal_item {rest : List ItemRead}
    (hs : st.room.participants.nodes.get? addr = some sender) :
    ItemsRefusal acl addr st (.item target :: rest) error ↔
      ItemRefusal st sender target error ∨
        ∃ st', adminItem acl st sender target = .ok st' ∧ ItemsRefusal acl addr st' rest error := by
  constructor
  · intro h
    cases h with
    | here hs' h =>
      rw [hs] at hs'
      cases hs'
      exact .inl h
    | later hs' hitem h =>
      rw [hs] at hs'
      cases hs'
      exact .inr ⟨_, hitem, h⟩
  · rintro (h | ⟨st', hitem, h⟩)
    · exact .here hs h
    · exact .later hs hitem h

/-- **A request is refused at the first item that is.** -/
theorem adminLoop_refusal : ∀ {reads : List ItemRead} {st : AdminState},
    (∃ st', adminLoop acl addr st reads = some (.refused st' error)) ↔
      ItemsRefusal acl addr st reads error
  | [], st => by
    refine iff_of_false ?_ nofun
    rintro ⟨st', h⟩
    cases h
  | .undefined :: rest, st => by
    refine iff_of_false ?_ nofun
    rintro ⟨st', h⟩
    cases h
  | .bad :: rest, st => by
    constructor
    · rintro ⟨st', h⟩
      cases h
      exact .bad
    · intro h
      cases h
      exact ⟨st, rfl⟩
  | .item target :: rest, st => by
    rw [adminLoop]
    cases hs : st.room.participants.nodes.get? addr with
    | none =>
      refine iff_of_false ?_ fun h => ?_
      · rintro ⟨st', h⟩
        cases h
      · cases h with
        | here hs' h => exact absurd (hs.symm.trans hs') nofun
        | later hs' hitem h => exact absurd (hs.symm.trans hs') nofun
    | some sender =>
      rw [itemsRefusal_item hs]
      dsimp only
      cases hitem : adminItem acl st sender target with
      | error error' =>
        rw [← @adminItem_refusal acl, hitem]
        constructor
        · rintro ⟨st', h⟩
          cases h
          exact .inl rfl
        · rintro (h | ⟨st', h, -⟩)
          · cases h
            exact ⟨st, rfl⟩
          · cases h
      -- an item that is accepted leaves the rest to decide
      | ok st₁ =>
        rw [← @adminItem_refusal acl, hitem, adminLoop_refusal]
        constructor
        · exact fun h => .inr ⟨st₁, rfl, h⟩
        · rintro (h | ⟨st', h, hrest⟩)
          · cases h
          · cases h
            exact hrest

/-! ### Whole queries -/

@[simp] theorem refusedWith_none : refusedWith none = none := rfl

@[simp] theorem refusedWith_some (answer : IqAnswer) : refusedWith (some answer) = answer.error? :=
  rfl

theorem refusedWith_reply {iqType : Nat} {sysData : SysData} (h : iqType ≠ 0) :
    refusedWith (some (IqAnswer.reply room iqType sysData)) = none :=
  @IqAnswer.error?_answered { room := room, affected := [] } iqType sysData h

/-- **A query is refused by the first checks, or for another reason once it has passed them.** -/
theorem denied_or {content : Bool} {allowed : Participant → Prop} {answer : Option IqAnswer}
    {Later : Nat × Participant → Prop}
    (hempty : (content && query.empty) = true → refusedWith answer = some errorIqBad)
    (hnobody : (content && query.empty) = false → found = none →
      refusedWith answer = some errorExternalIq)
    (hlow : ∀ n, (content && query.empty) = false → found = some n → ¬ allowed n.2 →
      refusedWith answer = some errorPrivilegeLevel)
    (hpasses : ∀ n, PassesChecks query content allowed found n →
      (refusedWith answer = some error ↔ Later n)) :
    refusedWith answer = some error ↔ Denied query content allowed found error ∨
      ∃ n, PassesChecks query content allowed found n ∧ Later n := by
  constructor
  · intro h
    cases hcontent : content && query.empty with
    | true =>
      obtain ⟨hwanted, hquery⟩ := Bool.and_eq_true_iff.mp hcontent
      rw [hempty hcontent] at h
      cases h
      exact .inl (.empty hwanted hquery)
    | false =>
      cases hfound : found with
      | none =>
        rw [hnobody hcontent hfound] at h
        cases h
        exact .inl (.external hcontent rfl)
      | some n =>
        by_cases hallowed : allowed n.2
        · have hn : PassesChecks query content allowed found n := ⟨hcontent, hfound, hallowed⟩
          exact .inr ⟨n, hfound ▸ hn, (hpasses n hn).mp h⟩
        · rw [hlow n hcontent hfound hallowed] at h
          cases h
          exact .inl (.privilege n hcontent rfl hallowed)
  · rintro (h | ⟨n, hn, hlater⟩)
    · cases h with
      | empty hcontent h => exact hempty (by rw [hcontent, h]; rfl)
      | external hcontent h => exact hnobody hcontent h
      | privilege n hcontent hs h => exact hlow n hcontent hs h
    · exact (hpasses n hn).mpr hlater

theorem getAffiliations_refusal :
    refusedWith (getAffiliations room mem query found) = some error ↔
      Denied query true (fun p => affilAdmin ≤ p.affiliation) found error ∨
        ∃ n, PassesChecks query true (fun p => affilAdmin ≤ p.affiliation) found n ∧
          ∃ next, nextMucAdminItem mem query.node = some next ∧ next.listed = none ∧
            error = errorIqBad := by
  unfold getAffiliations
  refine denied_or ?_ ?_ ?_ ?_
  · intro h
    have h : query.empty = true := h
    rw [if_pos h]
    rfl
  · rintro h rfl
    have h : ¬ query.empty = true := by simpa using h
    rw [if_neg h]
    rfl
  · rintro ⟨addr, p⟩ h rfl hlow
    have h : ¬ query.empty = true := by simpa using h
    rw [if_neg h]
    exact congrArg refusedWith (if_pos (Int.not_le.mp hlow))
  · rintro ⟨addr, p⟩ ⟨h, rfl, hhigh⟩
    have h : ¬ query.empty = true := by simpa using h
    have hhigh : ¬ p.affiliation < affilAdmin := Int.not_lt.mpr hhigh
    rw [if_neg h]
    simp only [if_neg hhigh]
    -- only the first item is looked at
    cases nextMucAdminItem mem query.node with
    | none => simp [refusedWith]
    | some next =>
      rw [Option.bind_eq_bind, Option.bind_some]
      cases next with
      | bad => simp [refusedWith, IqAnswer.error?, NextItem.listed, eq_comm]
      | finished => simp [refusedWith, IqAnswer.error?, NextItem.listed, eq_comm]
      | item target rest =>
        obtain ⟨affiliation, role, jid, nick, reasonNode⟩ := target
        cases affiliation with
        | none => simp [refusedWith, IqAnswer.error?, NextItem.listed, eq_comm]
        | some affiliation =>
          by_cases hnone : affiliation = listNone
          · simp [hnone, refusedWith, IqAnswer.error?, NextItem.listed, eq_comm]
          · have hlisted : (NextItem.item ⟨some affiliation, role, jid, nick, reasonNode⟩ rest).listed
                = some affiliation := by simp [NextItem.listed, hnone]
            refine iff_of_false ?_ ?_
            · dsimp only
              rw [if_neg hnone]
              simp [refusedWith_reply (show buildIqRoomAffiliations ≠ 0 by decide)]
            · rintro ⟨next, hnext, hempty, -⟩
              cases hnext
              rw [hlisted] at hempty
              cases hempty

theorem getConfig_refusal :
    refusedWith (some (getConfig room found)) = some error ↔
      Denied query false (fun p => affilOwner ≤ p.affiliation) found error := by
  have h := @denied_or error query found false (fun p => affilOwner ≤ p.affiliation)
    (some (getConfig room found)) (fun _ => False) (fun h => by cases h) ?_ ?_ ?_
  · rw [h]
    simp
  · rintro - rfl
    rfl
  · rintro ⟨addr, p⟩ - rfl hlow
    exact congrArg IqAnswer.error? (if_pos (Int.not_le.mp hlow))
  · rintro ⟨addr, p⟩ ⟨-, rfl, hhigh⟩
    have hhigh : ¬ p.affiliation < affilOwner := Int.not_lt.mpr hhigh
    refine iff_of_false ?_ id
    unfold getConfig
    simp only [if_neg hhigh]
    rw [refusedWith_reply (by decide)]
    nofun

theorem getIq_refusal : refusedWith (getIq room mem query found) = some error ↔
    GetRefusal room mem query found error := by
  unfold getIq GetRefusal
  split
  · rw [refusedWith_reply (by decide)]
    exact iff_of_false nofun id
  · split
    · cases hpublic : room.hasFlag mucFlagPublicparticipants with
      | true =>
        rw [if_pos rfl, refusedWith_reply (by decide)]
        exact iff_of_false nofun nofun
      | false => simp [refusedWith, IqAnswer.error?, eq_comm]
    · split
      · exact getAffiliations_refusal
      · split
        · exact getConfig_refusal
        · simp [refusedWith, eq_comm]

/-- **The answers to a request with items.** -/
theorem setAffiliations_refusal :
    refusedWith (setAffiliations room mem query acl found) = some error ↔
      Denied query true (fun p => roleModerator ≤ p.role) found error ∨
        ∃ n, PassesChecks query true (fun p => roleModerator ≤ p.role) found n ∧
          ItemsRefusal acl n.1 { room := room, affected := [] }
            (itemReads mem (rounds mem) query.node) error := by
  unfold setAffiliations
  refine denied_or ?_ ?_ ?_ ?_
  · intro h
    have h : query.empty = true := h
    rw [if_pos h]
    rfl
  · rintro h rfl
    have h : ¬ query.empty = true := by simpa using h
    rw [if_neg h]
    rfl
  · rintro ⟨addr, p⟩ h rfl hlow
    have h : ¬ query.empty = true := by simpa using h
    rw [if_neg h]
    exact congrArg refusedWith (if_pos (Int.not_le.mp hlow))
  · rintro ⟨addr, p⟩ ⟨h, rfl, hhigh⟩
    have h : ¬ query.empty = true := by simpa using h
    have hhigh : ¬ p.role < roleModerator := Int.not_lt.mpr hhigh
    rw [if_neg h]
    simp only [if_neg hhigh]
    rw [← adminLoop_refusal]
    cases adminLoop acl addr { room := room, affected := [] }
        (itemReads mem (rounds mem) query.node) with
    | none => simp
    | some result =>
      cases result with
      | refused st error' => simp [eq_comm]
      | done st =>
        simp [IqAnswer.error?_answered (show buildIqRoomAffiliations ≠ 0 by decide)]

/-- A child that an owner's request may have is carried out, and so not refused. -/
theorem ownerNode_carried {level : Int} {nodes : XmlNodeTraverser} {answer : IqAnswer}
    (h : ownerNode room mem level nodes = some (.inr answer)) : answer.error? = none := by
  have hempty : buildIqEmpty ≠ 0 := by decide
  unfold ownerNode at h
  split at h
  · cases h
    exact IqAnswer.error?_answered hempty
  · split at h
    · obtain ⟨a, ha, he⟩ := Option.map_eq_some_iff.mp h
      cases he
      obtain ⟨form, -, rfl⟩ := Option.map_eq_some_iff.mp ha
      exact IqAnswer.error?_answered hempty
    · cases h

/-- The search goes on where the request does. -/
theorem ownerNode_inl_iff {level : Int} {nodes : XmlNodeTraverser} :
    ownerNode room mem level nodes = some (.inl ()) ↔ ownerChild mem nodes = some (.inl ()) := by
  unfold ownerNode ownerChild
  by_cases hdestroy : nodes.nodeName.eqLit mem "destroy" = true
  · simp [hdestroy]
  · by_cases hx : nodes.nodeName.eqLit mem "x" = true
    · simp [hdestroy, hx]
    · simp [hdestroy, hx]

/-- All children are passed over in the request if they are in the search. -/
theorem ownerLoop_inl_iff {level : Int} {buffer : Span} :
    siblingLoop mem (fun (_ : Unit) nodes => ownerNode room mem level nodes) buffer ()
        = some (.inl ()) ↔
      siblingLoop mem (fun (_ : Unit) nodes => ownerChild mem nodes) buffer () = some (.inl ()) := by
  constructor
  · intro h
    obtain ⟨_, hloop, -⟩ := @siblingLoop_sim_inl _ _ _ _ mem _
      (fun (_ : Unit) nodes => ownerChild mem nodes) (fun _ _ => True)
      (fun _ _ _ _ _ hb => ⟨(), ownerNode_inl_iff.mp hb, trivial⟩) _ _ _ () trivial h
    exact hloop
  · intro h
    obtain ⟨_, hloop, -⟩ := @siblingLoop_sim_inl _ _ _ _ mem _
      (fun (_ : Unit) nodes => ownerNode room mem level nodes) (fun _ _ => True)
      (fun _ _ _ _ _ hb => ⟨(), ownerNode_inl_iff.mpr hb, trivial⟩) _ _ _ () trivial h
    exact hloop

theorem setConfig_refusal :
    refusedWith (setConfig room mem query acl found) = some error ↔
      Denied query true (fun p => affilOwner ≤ p.affiliation) found error ∨
        ∃ n, PassesChecks query true (fun p => affilOwner ≤ p.affiliation) found n ∧
          siblingLoop mem (fun (_ : Unit) nodes => ownerChild mem nodes) query.node ()
            = some (.inl ()) ∧ error = errorNotImplemented := by
  unfold setConfig
  refine denied_or ?_ ?_ ?_ ?_
  · intro h
    have h : query.empty = true := h
    rw [if_pos h]
    rfl
  · rintro h rfl
    have h : ¬ query.empty = true := by simpa using h
    rw [if_neg h]
    rfl
  · rintro ⟨addr, p⟩ h rfl hlow
    have h : ¬ query.empty = true := by simpa using h
    rw [if_neg h]
    exact congrArg refusedWith (if_pos (Int.not_le.mp hlow))
  · rintro ⟨addr, p⟩ ⟨h, rfl, hhigh⟩
    have h : ¬ query.empty = true := by simpa using h
    have hhigh : ¬ p.affiliation < affilOwner := Int.not_lt.mpr hhigh
    rw [if_neg h]
    simp only [if_neg hhigh]
    rw [← @ownerLoop_inl_iff room mem (aclRole acl p.jid)]
    cases hloop : siblingLoop mem
        (fun (_ : Unit) nodes => ownerNode room mem (aclRole acl p.jid) nodes) query.node () with
    | none => simp
    | some result =>
      cases result with
      | inl _ => simp [eq_comm]
      | inr answer =>
        have hcarried := siblingLoop_rule (I := fun _ => True) (Q := fun a => a.error? = none)
          (fun _ _ _ _ _ => trivial) (fun _ _ _ _ hb => ownerNode_carried hb) trivial hloop
        have hnone : answer.error? = none := hcarried
        simp [hnone]

theorem setIq_refusal : refusedWith (setIq room mem query acl found) = some error ↔
    SetRefusal room mem query acl found error := by
  unfold setIq SetRefusal
  split
  · exact setAffiliations_refusal
  · split
    · exact setConfig_refusal
    · simp [eq_comm]

/-- **The refusals of the program are those of the list.** -/
theorem answerIq_refusal : refusedWith (answerIq room ingress acl) = some error ↔
    QueryRefusal room ingress acl error := by
  unfold answerIq QueryRefusal
  cases findQuery ingress with
  | none => simp
  | some found =>
    rw [Option.bind_eq_bind, Option.bind_some]
    cases found with
    | none => simp [refusedWith, eq_comm]
    | some query =>
      simp only [Option.some.injEq, reduceCtorEq, false_and, false_or, exists_eq_left']
      split
      · exact getIq_refusal
      · split
        · exact setIq_refusal
        · simp [refusedWith, eq_comm]

end Program

end Mukite
