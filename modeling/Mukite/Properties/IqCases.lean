import Mukite.Room.Iq

/-!
# The cases of a query

`route_iq` taken apart once: `AnswerCase` lists what it can decide about a query to the room.
A muc#admin set query that gets as far as its items is an `adminRequest`.
-/

namespace Mukite

/-- The sender and the items of a muc#admin set query that gets as far as its items. -/
def adminRequest (room : Room) (ingress : IncomingPacket) : Option (Nat × List ItemRead) :=
  if ingress.name = .iq ∧ ingress.proxyTo.resource.isNone ∧ ingress.type = stanzaIqSet then
    match findQuery ingress, participantsFindByJid room.participants ingress.realFrom with
    | some (some query), some (addr, sender) =>
      if query.xmlns.eqLit ingress.mem xmlnsMucAdmin && !query.empty &&
          roleModerator ≤ sender.role then
        some (addr, itemReads ingress.mem (rounds ingress.mem) query.node)
      else none
    | _, _ => none
  else none

/-- The loop of `route_iq` over the items of a request. -/
def adminOutcome (room : Room) (acl : ACLConfig) (addr : Nat) (reads : List ItemRead) :
    Option AdminResult :=
  adminLoop acl addr { room := room, affected := [] } reads

/-- The state in which a muc#admin request is refused at one of its items. -/
def refusal (room : Room) (ingress : IncomingPacket) (acl : ACLConfig) : Option AdminState :=
  (adminRequest room ingress).bind (fun request =>
    match adminOutcome room acl request.1 request.2 with
    | some (.refused st _) => some st
    | _ => none)

/-- How the end of the loop is answered. -/
def answerOfItems : AdminResult → IqAnswer
  | .refused st error => .refused st.room error
  | .done st => .answered st buildIqRoomAffiliations (.mucItems 0 [])

/-- What `route_iq` can decide about a query to the room. -/
inductive AnswerCase (room : Room) (ingress : IncomingPacket) (acl : ACLConfig) : IqAnswer → Prop
  | refused (error : XMPPError) : AnswerCase room ingress acl (.refused room error)
  | reply (iqType : Nat) (sysData : SysData) :
      AnswerCase room ingress acl (.reply room iqType sysData)
  | items (addr : Nat) (sender : Participant) (query : QueryNode) (reads : List ItemRead)
      (r : AdminResult)
      (hreq : adminRequest room ingress = some (addr, reads))
      (hs : participantsFindByJid room.participants ingress.realFrom = some (addr, sender))
      (hquery : findQuery ingress = some (some query))
      (hreads : reads = itemReads ingress.mem (rounds ingress.mem) query.node)
      (hloop : adminOutcome room acl addr reads = some r) :
      AnswerCase room ingress acl (answerOfItems r)
  | destroyed (resume : Bytes) : AnswerCase room ingress acl (destroyRoom room resume)
  | configured (node : Span) (level : Int) (answer : IqAnswer)
      (h : configureRoom room ingress.mem node level = some answer) :
      AnswerCase room ingress acl answer

theorem refusal_of_outcome {room : Room} {ingress : IncomingPacket} {acl : ACLConfig}
    {addr : Nat} {reads : List ItemRead} {st : AdminState} {error : XMPPError}
    (hreq : adminRequest room ingress = some (addr, reads))
    (hloop : adminOutcome room acl addr reads = some (.refused st error)) :
    refusal room ingress acl = some st := by
  simp [refusal, hreq, hloop]

section Cases

variable {room : Room} {ingress : IncomingPacket} {acl : ACLConfig} {answer : IqAnswer}
  {query : QueryNode}

theorem getAffiliations_case {mem : Bytes} {sender : Option (Nat × Participant)}
    (h : getAffiliations room mem query sender = some answer) :
    AnswerCase room ingress acl answer := by
  unfold getAffiliations at h
  split at h
  · cases h
    exact .refused _
  · split at h
    · cases h
      exact .refused _
    · split at h
      · cases h
        exact .refused _
      · obtain ⟨next, -, h⟩ := Option.bind_eq_some_iff.mp h
        split at h
        · split at h
          · cases h
            exact .refused _
          · cases h
            exact .reply _ _
        · cases h
          exact .refused _

theorem getConfig_case (sender : Option (Nat × Participant)) :
    AnswerCase room ingress acl (getConfig room sender) := by
  unfold getConfig
  split
  · exact .refused _
  · split
    · exact .refused _
    · exact .reply _ _

theorem getIq_case {mem : Bytes} {sender : Option (Nat × Participant)}
    (h : getIq room mem query sender = some answer) : AnswerCase room ingress acl answer := by
  unfold getIq at h
  split at h
  · cases h
    exact .reply _ _
  · split at h
    · split at h
      · cases h
        exact .reply _ _
      · cases h
        exact .refused _
    · split at h
      · exact getAffiliations_case h
      · split at h
        · cases h
          exact getConfig_case sender
        · cases h
          exact .reply _ _

theorem setAffiliations_case (hname : ingress.name = .iq) (hres : ingress.proxyTo.resource.isNone)
    (htype : ingress.type = stanzaIqSet) (hquery : findQuery ingress = some (some query))
    (hxmlns : query.xmlns.eqLit ingress.mem xmlnsMucAdmin = true)
    (h : setAffiliations room ingress.mem query acl
      (participantsFindByJid room.participants ingress.realFrom) = some answer) :
    AnswerCase room ingress acl answer := by
  unfold setAffiliations at h
  split at h
  · cases h
    exact .refused _
  · next hempty =>
    cases hs : participantsFindByJid room.participants ingress.realFrom with
    | none =>
      simp only [hs] at h
      cases h
      exact .refused _
    | some found =>
      obtain ⟨addr, sender⟩ := found
      simp only [hs] at h
      split at h
      · cases h
        exact .refused _
      · next hrole =>
        have hreq : adminRequest room ingress =
            some (addr, itemReads ingress.mem (rounds ingress.mem) query.node) := by
          have hrole' : roleModerator ≤ sender.role := by omega
          have hempty' : query.empty = false := by simpa using hempty
          simp [adminRequest, hname, Option.isNone_iff_eq_none.mp hres, htype, hquery, hs, hxmlns,
            hempty', hrole']
        cases hl : adminOutcome room acl addr
            (itemReads ingress.mem (rounds ingress.mem) query.node) with
        | none =>
          unfold adminOutcome at hl
          simp [hl] at h
        | some r =>
          have hanswer : answer = answerOfItems r := by
            unfold adminOutcome at hl
            cases r with
            | refused st error => simpa [hl, answerOfItems] using h.symm
            | done st => simpa [hl, answerOfItems] using h.symm
          exact hanswer ▸ .items addr sender query _ r hreq hs hquery rfl hl

theorem ownerNode_case {level : Int} {nodes : XmlNodeTraverser}
    (h : ownerNode room ingress.mem level nodes = some (.inr answer)) :
    AnswerCase room ingress acl answer := by
  unfold ownerNode at h
  split at h
  · cases h
    exact .destroyed _
  · split at h
    · obtain ⟨a, ha, he⟩ := Option.map_eq_some_iff.mp h
      cases he
      exact .configured _ _ _ ha
    · cases h

theorem setConfig_case {sender : Option (Nat × Participant)}
    (h : setConfig room ingress.mem query acl sender = some answer) :
    AnswerCase room ingress acl answer := by
  unfold setConfig at h
  split at h
  · cases h
    exact .refused _
  · split at h
    · cases h
      exact .refused _
    · split at h
      · cases h
        exact .refused _
      · obtain ⟨x, hx, h⟩ := Option.bind_eq_some_iff.mp h
        have hrule := siblingLoop_rule (I := fun _ => True) (Q := AnswerCase room ingress acl)
          (fun _ _ _ _ _ => trivial) (fun _ _ _ _ hb => ownerNode_case hb) trivial hx
        cases x with
        | inl _ =>
          cases h
          exact .reply _ _
        | inr a =>
          cases h
          exact hrule

/-- **The answer is one of the cases.** -/
theorem answerIq_case (hname : ingress.name = .iq) (hres : ingress.proxyTo.resource.isNone)
    (h : answerIq room ingress acl = some answer) : AnswerCase room ingress acl answer := by
  unfold answerIq at h
  obtain ⟨found, hq, h⟩ := Option.bind_eq_some_iff.mp h
  cases found with
  | none =>
    cases h
    exact .refused _
  | some query =>
    simp only at h
    split at h
    · exact getIq_case h
    · split at h
      · next htype =>
        unfold setIq at h
        split at h
        · next hxmlns => exact setAffiliations_case hname hres htype hq hxmlns h
        · split at h
          · exact setConfig_case h
          · cases h
            exact .reply _ _
      · cases h
        exact .reply _ _

end Cases

/-! ## Queries to an occupant -/

theorem proxyIq_room {room room' : Room} {ingress : IncomingPacket} {sent : List BuilderPacket}
    (h : proxyIq room ingress = some (room', sent)) : room' = room := by
  unfold proxyIq at h
  split at h
  · exact bounce_room h
  · split at h
    · exact bounce_room h
    · split at h
      · exact bounce_room h
      · obtain ⟨inner, -, h⟩ := Option.bind_eq_some_iff.mp h
        obtain ⟨vcard, -, h⟩ := Option.bind_eq_some_iff.mp h
        cases h
        rfl

/-! ## Requests to the room -/

/-- A request that gets as far as its items is answered by the loop over them. -/
theorem answerIq_of_request {room : Room} {ingress : IncomingPacket} {acl : ACLConfig}
    {addr : Nat} {reads : List ItemRead}
    (hreq : adminRequest room ingress = some (addr, reads)) :
    ingress.name = .iq ∧ ingress.proxyTo.resource.isSome = false ∧
      answerIq room ingress acl = (adminOutcome room acl addr reads).map answerOfItems := by
  unfold adminRequest at hreq
  split at hreq
  · next hcond =>
    obtain ⟨hname, hres, htype⟩ := hcond
    have hres' : ingress.proxyTo.resource.isSome = false := by
      simp [Option.isNone_iff_eq_none.mp hres]
    refine ⟨hname, hres', ?_⟩
    split at hreq
    · next query addr' sender hquery hs =>
      split at hreq
      · next hgood =>
        simp only [Bool.and_eq_true, Bool.not_eq_true', decide_eq_true_eq] at hgood
        obtain ⟨⟨hxmlns, hempty⟩, hrole⟩ := hgood
        cases hreq
        have hlow : ¬ sender.role < roleModerator := by omega
        have hget : ¬ ingress.type = stanzaIqGet := by
          rw [htype]
          decide
        unfold answerIq
        simp only [hquery, htype, hxmlns, setIq, setAffiliations, hs, hempty, if_true,
          Option.bind_eq_bind, Option.bind_some, hlow, if_false]
        rw [if_neg (by decide : ¬ stanzaIqSet = stanzaIqGet)]
        simp only [Bool.false_eq_true, if_false]
        unfold adminOutcome
        cases adminLoop acl addr { room := room, affected := [] }
            (itemReads ingress.mem (rounds ingress.mem) query.node) with
        | none => rfl
        | some r => cases r <;> rfl
      · cases hreq
    · cases hreq
  · cases hreq

/-- The sender of a request is in the room. -/
theorem adminRequest_sender {room : Room} {ingress : IncomingPacket} {addr : Nat}
    {reads : List ItemRead} (hreq : adminRequest room ingress = some (addr, reads)) :
    ∃ sender, participantsFindByJid room.participants ingress.realFrom = some (addr, sender) := by
  unfold adminRequest at hreq
  split at hreq
  · split at hreq
    · next query addr' sender hquery hs =>
      split at hreq
      · cases hreq
        exact ⟨sender, hs⟩
      · cases hreq
    · cases hreq
  · cases hreq

/-- A muc#admin set query. -/
def IsAdminSet (ingress : IncomingPacket) : Prop :=
  ingress.name = .iq ∧ ingress.type = stanzaIqSet ∧
    ∃ query, findQuery ingress = some (some query) ∧
      query.xmlns.eqLit ingress.mem xmlnsMucAdmin = true

instance (ingress : IncomingPacket) : Decidable (IsAdminSet ingress) :=
  decidable_of_iff (ingress.name = .iq ∧ ingress.type = stanzaIqSet ∧
    (findQuery ingress).join.any (fun query => query.xmlns.eqLit ingress.mem xmlnsMucAdmin) = true)
    (by simp [IsAdminSet, Option.any_eq_true, Option.join_eq_some_iff])

/-- A muc#admin set query that does not get as far as its items leaves the room alone. -/
theorem routeIq_adminSet_none {room room' : Room} {ingress : IncomingPacket} {acl : ACLConfig}
    {sent : List BuilderPacket} (hset : IsAdminSet ingress)
    (hreq : adminRequest room ingress = none)
    (hr : routeIq room ingress acl = some (room', sent)) : room' = room := by
  obtain ⟨hname, htype, query, hquery, hxmlns⟩ := hset
  unfold routeIq at hr
  split at hr
  · exact proxyIq_room hr
  · next hres =>
    have hrefused : ∃ error, answerIq room ingress acl = some (.refused room error) := by
      unfold answerIq
      simp only [hquery, htype, hxmlns, setIq, setAffiliations, if_true, Option.bind_eq_bind,
        Option.bind_some]
      rw [if_neg (by decide : ¬ stanzaIqSet = stanzaIqGet)]
      by_cases hempty : query.empty = true
      · exact ⟨errorIqBad, by rw [if_pos hempty]⟩
      · rw [if_neg hempty]
        cases hs : participantsFindByJid room.participants ingress.realFrom with
        | none => exact ⟨_, rfl⟩
        | some found =>
          obtain ⟨addr, sender⟩ := found
          by_cases hrole : sender.role < roleModerator
          · exact ⟨errorPrivilegeLevel, by simp only [if_pos hrole]⟩
          · have hres' : ingress.proxyTo.resource = none := by simpa using hres
            have hempty' : query.empty = false := by simpa using hempty
            simp [adminRequest, hname, hres', htype, hquery, hs, hxmlns, hempty',
              not_lt.mp hrole] at hreq
    obtain ⟨error, ha⟩ := hrefused
    rw [ha] at hr
    exact bounce_room hr

end Mukite
