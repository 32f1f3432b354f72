import Mukite.Properties.PresenceCases
import Mukite.Properties.IqCases
import Mukite.Room.Route
import Mathlib.Logic.Relation

/-!
# What a stanza can change

Every stanza changes a room by a sequence of small changes, each with the checks the program has
made before it (`Change`, `roomStep_changes`). So a property of a room that each small change
keeps holds in every run (`keeps_of_reach`), and no such proof looks into the routing functions
again.
-/

namespace Mukite

open Relation

/-! ## The small changes -/

/-- `target` is an item of the query that the stanza carries. -/
def ItemOf (ingress : IncomingPacket) (target : AdminTarget) : Prop :=
  ∃ query, findQuery ingress = some (some query) ∧
    .item target ∈ itemReads ingress.mem (rounds ingress.mem) query.node

/-- Two states of one participant that is still in its place. -/
structure SamePlace (p q : Participant) : Prop where
  jid : q.jid = p.jid
  nick : q.nick = p.nick
  affiliation : q.affiliation = p.affiliation

theorem SamePlace.refl (p : Participant) : SamePlace p p := ⟨rfl, rfl, rfl⟩

/-- The room after an entry has been filed and every occupant has been looked up again. -/
def reaffiliated (room : Room) (affiliations : Affiliations) (acl : ACLConfig)
    (reasonNode : Buffer) : Room :=
  (affectEach { room := { room with affiliations := affiliations }, affected := [] } reasonNode
    (reaffiliate affiliations acl)).room

/-- Every occupant loses its role and its affiliation in a room that is destroyed. -/
def evicted (room : Room) : Room :=
  (affectEach { room := room.setFlag mucFlagDestroyed true, affected := [] } none
    (fun p => some { p with role := roleNone, affiliation := affilNone })).room

/-- The small changes of a room, by stanzas that `ok` admits. -/
inductive Change (ok : IncomingPacket → Prop) (room : Room) : Room → Prop
  /-- a participant changes without moving: its role, its presence, its marks -/
  | adjust (addr : Nat) (f : Participant → Participant) (hf : ∀ p, SamePlace p (f p)) :
      Change ok room (room.modify addr f)
  | adjustAll (f : Participant → Participant) (hf : ∀ p, SamePlace p (f p)) :
      Change ok room (room.mapVals f)
  | subject (addr : Nat) (sender : Participant) (node : Bytes)
      (hm : (addr, sender) ∈ room.occupants) (hsize : node.length ≤ userStringOptionLimit) :
      Change ok room
        { room with subject := { node := some node, nick := some (bptBytes sender.nick) } }
  | store (inner : Buffer) (history : HistoryEntriesList)
      (h : historyStore room.history inner = some history) :
      Change ok room { room with history := history }
  | creator (ingress : IncomingPacket) (hok : ok ingress) :
      Change ok room (withCreator room ingress.realFrom)
  /-- a newcomer is linked in; the room is new no longer -/
  | join (ingress : IncomingPacket) (mucNode : MucNode) (acl : ACLConfig) (affiliation : Int)
      (hok : ok ingress)
      (hjid : participantsFindByJid room.participants ingress.realFrom = none)
      (hres : ingress.proxyTo.resource.isSome)
      (hnick : participantsFindByNick room.participants ingress.proxyTo.resource = none)
      (hadmission : admission (withCreator room ingress.realFrom) ingress mucNode acl
        = .ok affiliation) :
      Change ok room ((roomJoin (withCreator room ingress.realFrom) ingress.realFrom
        ingress.proxyTo.resource affiliation).1.setFlag mucFlagJustCreated false)
  | rename (ingress : IncomingPacket) (addr : Nat) (hok : ok ingress)
      (hnick : participantsFindByNick room.participants ingress.proxyTo.resource = none) :
      Change ok room (renamed room addr (some (bptBytes ingress.proxyTo.resource)))
  | leave (addr : Nat) (hm : addr ∈ room.participants.nodes.addrs) :
      Change ok room (roomLeave room addr)
  /-- the first presence has been handled -/
  | opened : Change ok room (room.setFlag mucFlagJustCreated false)
  | option (room' : Room) (h : ConfigChange room room') : Change ok room room'
  | affiliate (ingress : IncomingPacket) (addr : Nat) (sender : Participant) (acl : ACLConfig)
      (target : AdminTarget) (affiliation : Affil) (affiliations : Affiliations)
      (hok : ok ingress) (hitem : ItemOf ingress target) (hjid : jidEmpty target.jid = false)
      (hm : (addr, sender) ∈ room.occupants) (hadmin : affilAdmin ≤ sender.affiliation)
      (hadd : affiliationssAdd room.affiliations (some sender) affiliation target.jid
        target.reasonNode = some affiliations) :
      Change ok room (reaffiliated room affiliations acl target.reasonNode)
  | evict : Change ok room (evicted room)

/-- A sequence of small changes. -/
abbrev Changed (ok : IncomingPacket → Prop) : Room → Room → Prop := ReflTransGen (Change ok)

/-- A small change after which the room is as persistent as it was. -/
def PlainChange (ok : IncomingPacket → Prop) (room room' : Room) : Prop :=
  Change ok room room' ∧
    room'.hasFlag mucFlagPersistentroom = room.hasFlag mucFlagPersistentroom

/-- A sequence of such changes, as everything but a configuration form makes them. -/
abbrev PlainlyChanged (ok : IncomingPacket → Prop) : Room → Room → Prop :=
  ReflTransGen (PlainChange ok)

theorem PlainlyChanged.changed {ok : IncomingPacket → Prop} {room room' : Room}
    (h : PlainlyChanged ok room room') : Changed ok room room' := by
  induction h with
  | refl => exact .refl
  | tail _ hc ih => exact .tail ih hc.1

/-- **What every small change keeps, a sequence of them keeps.** -/
theorem keeps_of_changed {ok : IncomingPacket → Prop} {I : Room → Prop}
    (hI : ∀ room room', I room → Change ok room room' → I room') {room room' : Room}
    (h : Changed ok room room') (h₀ : I room) : I room' := by
  induction h with
  | refl => exact h₀
  | tail _ hc ih => exact hI _ _ ih hc

variable {ok : IncomingPacket → Prop} {room room' : Room} {ingress : IncomingPacket}
  {acl : ACLConfig} {sent : List BuilderPacket}

/-! ## Presences -/

theorem samePlace_refreshed (room : Room) (inner : Buffer) (p : Participant) :
    SamePlace p (refreshed room inner p) := by
  unfold refreshed
  split
  · exact ⟨rfl, rfl, rfl⟩
  · exact .refl p

theorem samePlace_departed (room : Room) (inner : Buffer) (p : Participant) :
    SamePlace p (departed room inner p) :=
  have h := samePlace_refreshed room inner p
  ⟨h.jid, h.nick, h.affiliation⟩

theorem mem_addrs_of_occupant {addr : Nat} {p : Participant} (h : (addr, p) ∈ room.occupants) :
    addr ∈ room.participants.nodes.addrs := NodeList.mem_addrs_of_mem h

theorem mem_addrs_modify {addr b : Nat} {f : Participant → Participant}
    (h : addr ∈ room.participants.nodes.addrs) :
    addr ∈ (room.modify b f).participants.nodes.addrs := by
  rw [Room.participants_modify, ParticipantsList.nodes_modify, NodeList.addrs_modify]
  exact h

/-- The second half of a presence, with the room open or about to be. -/
theorem announceCase_changed {addr : Nat} {p : Participant} {type : Nat} {inner : Buffer}
    {justJoined : Bool} (hp : (addr, p) ∈ room.occupants)
    (h : AnnounceCase room addr p type inner justJoined room' sent) : PlainlyChanged ok room room' := by
  cases h with
  | left htype =>
    have h₁ : PlainChange ok room (room.modify addr (departed room inner)) :=
      ⟨.adjust _ _ (samePlace_departed room inner), rfl⟩
    have h₂ : PlainChange ok (room.modify addr (departed room inner))
        (roomLeave (room.modify addr (departed room inner)) addr) :=
      ⟨.leave _ (mem_addrs_modify (mem_addrs_of_occupant hp)), hasFlag_roomLeave (by decide)⟩
    exact .tail (.tail (.single h₁) h₂) ⟨.opened, Room.hasFlag_setFlag (by decide)⟩
  | stayed htype =>
    have h₁ : PlainChange ok room (room.modify addr (refreshed room inner)) :=
      ⟨.adjust _ _ (samePlace_refreshed room inner), rfl⟩
    have h₂ : PlainChange ok (room.modify addr (refreshed room inner))
        ((room.modify addr (refreshed room inner)).modify addr cached) :=
      ⟨.adjust _ _ (fun p => ⟨rfl, rfl, rfl⟩), rfl⟩
    exact .tail (.tail (.single h₁) h₂) ⟨.opened, Room.hasFlag_setFlag (by decide)⟩

theorem mem_occupants_renamed {addr : Nat} {sender : Participant} {nick : Buffer}
    (h : (addr, sender) ∈ room.occupants) :
    (addr, { sender with nick := nick }) ∈ (renamed room addr nick).occupants :=
  Room.mem_occupants_modify.mpr ⟨sender, h, by simp⟩

theorem mem_occupants_roomJoin {jid : Jid} {nick : Buffer} {affiliation : Int} :
    (room.participants.nodes.fresh, joiner room jid nick affiliation) ∈
      (roomJoin room jid nick affiliation).1.occupants :=
  NodeList.mem_cons.mpr (.inl ⟨rfl, rfl⟩)

/-- A newcomer that stays: the room is opened before it is announced or after, all the same. -/
theorem announceCase_joined {addr : Nat} {p : Participant} {type : Nat} {inner : Buffer}
    (htype : type ≠ stanzaPresenceUnavailable)
    (h : AnnounceCase room addr p type inner true room' sent) :
    PlainlyChanged ok (room.setFlag mucFlagJustCreated false) room' := by
  cases h with
  | left ht => exact absurd ht htype
  | stayed ht =>
    have h₁ : PlainChange ok (room.setFlag mucFlagJustCreated false)
        ((room.setFlag mucFlagJustCreated false).modify addr (refreshed room inner)) :=
      ⟨.adjust _ _ (samePlace_refreshed room inner), rfl⟩
    have h₂ : PlainChange ok ((room.setFlag mucFlagJustCreated false).modify addr (refreshed room inner))
        (((room.setFlag mucFlagJustCreated false).modify addr (refreshed room inner)).modify addr
          cached) :=
      ⟨.adjust _ _ (fun p => ⟨rfl, rfl, rfl⟩), rfl⟩
    exact .tail (.single h₁) h₂

theorem routePresence_changed (hok : ok ingress)
    (h : routePresence room ingress acl = some (room', sent)) : PlainlyChanged ok room room' := by
  unfold routePresence at h
  obtain ⟨r, hr, h⟩ := Option.bind_eq_some_iff.mp h
  cases presenceSender_case hr with
  | ignored =>
    cases h
    exact .refl
  | bounced error sent hb =>
    cases h
    exact .refl
  | turnedAway error sent hjid hb =>
    cases h
    exact .single ⟨.creator ingress hok, rfl⟩
  | present addr sender hs =>
    obtain ⟨⟨room₂, sent₂⟩, ha, h⟩ := Option.bind_eq_some_iff.mp h
    cases h
    have hp := findByJid_mem hs
    obtain ⟨inner, -, hc⟩ := presenceAnnounce_case hp ha
    exact announceCase_changed hp hc
  | renamed addr sender hs htype hres hnick =>
    obtain ⟨⟨room₂, sent₂⟩, ha, h⟩ := Option.bind_eq_some_iff.mp h
    cases h
    have hp : (addr, { sender with nick := some (bptBytes ingress.proxyTo.resource) }) ∈
        (renamed room addr (some (bptBytes ingress.proxyTo.resource))).occupants :=
      mem_occupants_renamed (findByJid_mem hs)
    obtain ⟨inner, -, hc⟩ := presenceAnnounce_case hp ha
    exact .head ⟨.rename ingress addr hok hnick, rfl⟩ (announceCase_changed hp hc)
  | joined mucNode affiliation hjid htype hres hnick hadmission =>
    obtain ⟨⟨room₂, sent₂⟩, ha, h⟩ := Option.bind_eq_some_iff.mp h
    cases h
    obtain ⟨inner, -, hc⟩ := presenceAnnounce_case mem_occupants_roomJoin ha
    exact .head ⟨.join ingress mucNode acl affiliation hok hjid hres hnick hadmission,
      Room.hasFlag_setFlag (by decide)⟩ (announceCase_joined htype hc)

/-! ## Messages -/

theorem publish_changed {sender : Participant}
    (h : publish room ingress sender = some (room', sent)) : PlainlyChanged ok room room' := by
  unfold publish at h
  obtain ⟨inner, -, h⟩ := Option.bind_eq_some_iff.mp h
  obtain ⟨history, hs, h⟩ := Option.bind_eq_some_iff.mp h
  cases h
  exact .single ⟨.store inner history hs, rfl⟩

theorem routePublicMessage_changed {addr : Nat} {sender : Participant} {limit ticks : Int}
    (hs : (addr, sender) ∈ room.occupants)
    (h : routePublicMessage room ingress addr sender limit ticks = some (room', sent)) :
    PlainlyChanged ok room room' := by
  unfold routePublicMessage at h
  split at h
  · exact bounce_room h ▸ .refl
  · split at h
    · exact bounce_room h ▸ .refl
    · obtain ⟨subject, -, h⟩ := Option.bind_eq_some_iff.mp h
      let room₁ := room.modify addr (fun p => { p with lastMessageTime := ticks })
      have h₁ : PlainChange ok room room₁ := ⟨.adjust _ _ (fun p => ⟨rfl, rfl, rfl⟩), rfl⟩
      cases subject with
      | none => exact .head h₁ (publish_changed h)
      | some newSubject =>
        simp only at h
        split at h
        · exact bounce_room h ▸ .single h₁
        · split at h
          · exact bounce_room h ▸ .single h₁
          · next hsize =>
            obtain ⟨node, hn, h⟩ := Option.bind_eq_some_iff.mp h
            have hlen := Span.length_of_copy hn
            have hm : (addr, { sender with lastMessageTime := ticks }) ∈ room₁.occupants :=
              Room.mem_occupants_modify.mpr ⟨sender, hs, by simp⟩
            have h₂ : PlainChange ok room₁ { room₁ with
                subject := { node := some node, nick := some (bptBytes sender.nick) } } :=
              ⟨.subject addr { sender with lastMessageTime := ticks } node hm (by omega), rfl⟩
            exact .head h₁ (.head h₂ (publish_changed h))

theorem routeMessage_changed {limit ticks : Int}
    (h : routeMessage room ingress limit ticks = some (room', sent)) : PlainlyChanged ok room room' := by
  unfold routeMessage at h
  split at h
  · exact bounce_room h ▸ .refl
  · next addr sender hs =>
    split at h
    · exact routePublicMessage_changed (findByJid_mem hs) h
    · unfold routePrivateMessage at h
      split at h
      · exact bounce_room h ▸ .refl
      · split at h
        · exact bounce_room h ▸ .refl
        · split at h
          · exact bounce_room h ▸ .refl
          · obtain ⟨inner, -, h⟩ := Option.bind_eq_some_iff.mp h
            cases h
            exact .refl

/-! ## Errors -/

theorem routeError_changed (h : routeError room ingress = (room', sent)) :
    PlainlyChanged ok room room' := by
  unfold routeError at h
  split at h
  · cases h
    exact .refl
  · next addr sender hs =>
    cases h
    have h₁ : PlainChange ok room (room.modify addr errorKicked) :=
      ⟨.adjust _ _ (fun p => ⟨rfl, rfl, rfl⟩), rfl⟩
    have hm := mem_addrs_modify (b := addr) (f := errorKicked)
      (mem_addrs_of_occupant (findByJid_mem hs))
    exact .tail (.single h₁) ⟨.leave _ hm, hasFlag_roomLeave (by decide)⟩

/-! ## Queries -/

theorem samePlace_setAffected {reasonNode : Buffer} {p q : Participant} (h : SamePlace p q) :
    SamePlace p (setAffected reasonNode q) := by
  unfold setAffected
  split
  · exact h
  · exact ⟨h.jid, h.nick, h.affiliation⟩

theorem affectOne_change {st : AdminState} {receiver : Nat × Participant} {reasonNode : Buffer}
    {f : Participant → Participant} (hf : ∀ p, SamePlace p (f p)) :
    PlainChange ok st.room (affectOne st receiver reasonNode f).room :=
  ⟨.adjust _ _ (fun p => samePlace_setAffected (hf p)), rfl⟩

theorem affectEach_change {st : AdminState} {reasonNode : Buffer}
    {f : Participant → Option Participant} (hf : ∀ p q, f p = some q → SamePlace p q) :
    PlainChange ok st.room (affectEach st reasonNode f).room := by
  refine ⟨.adjustAll _ (fun p => ?_), rfl⟩
  cases hp : f p with
  | none => exact .refl p
  | some q => exact samePlace_setAffected (hf p q hp)

/-- An item that is accepted is one small change. -/
theorem adminItem_change {st st' : AdminState} {addr : Nat} {sender : Participant}
    {target : AdminTarget} (hok : ok ingress) (hitem : ItemOf ingress target)
    (hm : (addr, sender) ∈ st.room.occupants)
    (h : adminItem acl st sender target = .ok st') : PlainlyChanged ok st.room st'.room := by
  unfold adminItem at h
  split at h
  · cases h
  · next hgood =>
    split at h
    · next role _ =>
      unfold roleItem at h
      split at h
      · cases h
      · split at h
        · cases h
        · cases h
          exact .single (affectOne_change fun p => ⟨rfl, rfl, rfl⟩)
    · next affiliation hrole haff =>
      unfold affiliationItem at h
      split at h
      · cases h
      · next hadmin =>
        split at h
        · cases h
        · next affiliations hadd =>
          cases h
          have hjid : jidEmpty target.jid = false := by
            cases he : jidEmpty target.jid with
            | false => rfl
            | true => simp [badItem, haff, he] at hgood
          exact .single ⟨.affiliate ingress addr sender acl target affiliation affiliations hok
            hitem hjid hm (by omega) hadd, rfl⟩
    · cases h
      exact .refl

theorem adminLoop_changed {addr : Nat} (hok : ok ingress) :
    ∀ {reads : List ItemRead} {st : AdminState} {r : AdminResult},
      (∀ target, .item target ∈ reads → ItemOf ingress target) →
      adminLoop acl addr st reads = some r → PlainlyChanged ok st.room r.state.room
  | [], st, r, _, h => by
    cases h
    exact .refl
  | .undefined :: _, st, r, _, h => by cases h
  | .bad :: _, st, r, _, h => by
    cases h
    exact .refl
  | .item target :: rest, st, r, hitems, h => by
    rw [adminLoop] at h
    split at h
    · cases h
    · next sender hs =>
      split at h
      · cases h
        exact .refl
      · next st' hst =>
        have h₁ : PlainlyChanged ok st.room st'.room := adminItem_change hok
          (hitems target List.mem_cons_self) (NodeList.get?_eq_some_iff.mp hs) hst
        exact h₁.trans (adminLoop_changed hok
          (fun t ht => hitems t (List.mem_cons_of_mem _ ht)) h)

theorem samePlace_announced (room : Room) (p : Participant) : SamePlace p (announced room p) :=
  ⟨rfl, rfl, rfl⟩

theorem announceOne_changed {addr : Nat} {p : Participant}
    (hm : addr ∈ room.participants.nodes.addrs) :
    PlainlyChanged ok room (announceOne room addr p).1 := by
  have h₁ : PlainChange ok room (room.modify addr (announced room)) :=
    ⟨.adjust _ _ (samePlace_announced room), rfl⟩
  have h₂ : PlainChange ok (room.modify addr (announced room))
      ((room.modify addr (announced room)).modify addr clearReason) :=
    ⟨.adjust _ _ (fun p => ⟨rfl, rfl, rfl⟩), rfl⟩
  unfold announceOne
  simp only
  split
  · exact .tail (.tail (.single h₁) h₂)
      ⟨.leave _ (mem_addrs_modify (mem_addrs_modify hm)), hasFlag_roomLeave (by decide)⟩
  · exact .tail (.single h₁) h₂

theorem announceAffected_changed : ∀ {affected : List Nat} {room : Room},
    PlainlyChanged ok room (announceAffected room affected).1
  | [], _ => .refl
  | addr :: rest, room => by
    rw [announceAffected]
    split
    · exact announceAffected_changed
    · next p hp =>
      have hm := NodeList.mem_addrs_of_mem (NodeList.get?_eq_some_iff.mp hp)
      exact (announceOne_changed hm).trans announceAffected_changed

theorem samePlace_exclude {p q : Participant} (h : excludeNonMember p = some q) :
    SamePlace p q := by
  unfold excludeNonMember at h
  split at h
  · cases h
    exact ⟨rfl, rfl, rfl⟩
  · cases h

theorem submitForm_changed {mem : Bytes} {node : Span} {level : Int}
    (h : submitForm room mem node level = some room') : Changed ok room room' := by
  unfold submitForm at h
  obtain ⟨⟨content, data⟩, -, h⟩ := Option.bind_eq_some_iff.mp h
  dsimp only at h
  split at h
  · exact roomConfigParse_keeps (I := Changed ok room)
      (fun _ _ hr hc => .tail hr (.option _ hc)) .refl h
  · cases h
    exact .refl

/-- A form leaves the occupants alone. -/
theorem submitForm_occupants {mem : Bytes} {node : Span} {level : Int}
    (h : submitForm room mem node level = some room') :
    room'.occupants = room.occupants ∧ room'.participants.size = room.participants.size := by
  unfold submitForm at h
  obtain ⟨⟨content, data⟩, -, h⟩ := Option.bind_eq_some_iff.mp h
  dsimp only at h
  split at h
  · refine roomConfigParse_keeps (I := fun r => r.occupants = room.occupants ∧
      r.participants.size = room.participants.size) (fun r r' hr hc => ?_) ⟨rfl, rfl⟩ h
    cases hc <;> exact hr
  · cases h
    exact ⟨rfl, rfl⟩

theorem excludeNonMembers_changed : PlainlyChanged ok room (excludeNonMembers room).room := by
  unfold excludeNonMembers
  split
  · have hc : PlainChange ok room (affectEach { room := room, affected := [] } (some membersOnlyReason)
        excludeNonMember).room :=
      @affectEach_change ok { room := room, affected := [] } _ _ fun p q hq => samePlace_exclude hq
    exact .single hc
  · exact .refl

/-- The room changes plainly, perhaps after the options of a form have been set. -/
def FormThenPlain (ok : IncomingPacket → Prop) (mem : Bytes) (room room' : Room) : Prop :=
  PlainlyChanged ok room room' ∨
    ∃ node level form, submitForm room mem node level = some form ∧ PlainlyChanged ok form room'

theorem FormThenPlain.trans {mem : Bytes} {room'' : Room} (h : FormThenPlain ok mem room room')
    (h' : PlainlyChanged ok room' room'') : FormThenPlain ok mem room room'' := by
  rcases h with h | ⟨node, level, form, hform, h⟩
  · exact .inl (h.trans h')
  · exact .inr ⟨node, level, form, hform, h.trans h'⟩

theorem FormThenPlain.changed {mem : Bytes} (h : FormThenPlain ok mem room room') :
    Changed ok room room' := by
  rcases h with h | ⟨node, level, form, hform, h⟩
  · exact h.changed
  · exact (submitForm_changed hform).trans h.changed

theorem answerCase_changed {answer : IqAnswer} (hok : ok ingress)
    (h : AnswerCase room ingress acl answer) : FormThenPlain ok ingress.mem room answer.room := by
  cases h with
  | refused error => exact .inl .refl
  | reply iqType sysData => exact .inl .refl
  | items addr sender query reads r hreq hs hquery hreads hloop =>
    have hitems : ∀ target, .item target ∈ reads → ItemOf ingress target :=
      fun target ht => ⟨query, hquery, hreads ▸ ht⟩
    have hc : PlainlyChanged ok room r.state.room := adminLoop_changed hok hitems hloop
    cases r with
    | refused st error => exact .inl hc
    | done st => exact .inl hc
  | destroyed resume => exact .inl (.single ⟨.evict, Room.hasFlag_setFlag (by decide)⟩)
  | configured node level answer hconf =>
    obtain ⟨form, hform, rfl⟩ := Option.map_eq_some_iff.mp hconf
    exact .inr ⟨node, level, form, hform, excludeNonMembers_changed⟩

theorem routeIq_changed (hok : ok ingress) (hname : ingress.name = .iq)
    (h : routeIq room ingress acl = some (room', sent)) :
    FormThenPlain ok ingress.mem room room' := by
  unfold routeIq at h
  split at h
  · exact proxyIq_room h ▸ .inl .refl
  · next hres =>
    obtain ⟨answer, ha, h⟩ := Option.bind_eq_some_iff.mp h
    have hc : FormThenPlain ok ingress.mem room answer.room :=
      answerCase_changed hok (answerIq_case hname (by simpa using hres) ha)
    cases answer with
    | refused room₁ error => exact bounce_room h ▸ hc
    | answered st iqType sysData =>
      simp only at h
      split at h
      · exact bounce_room h ▸ hc
      · cases h
        exact hc.trans announceAffected_changed

/-! ## All stanzas -/

/-- A stanza changes a room plainly, but for a query with a form. -/
theorem roomStep_formThenPlain {stanza : Stanza} (hok : ok stanza.ingress)
    (h : roomStep room stanza = some (room', sent)) : PlainlyChanged ok room room' ∨
      stanza.ingress.name = .iq ∧ routeIq room stanza.ingress stanza.acl = some (room', sent) ∧
        FormThenPlain ok stanza.ingress.mem room room' := by
  unfold roomStep roomRoute at h
  split at h
  · exact .inl (routeError_changed (Option.some.inj h))
  · split at h
    · exact .inl (routeMessage_changed h)
    · exact .inl (routePresence_changed hok h)
    · next hname => exact .inr ⟨hname, h, routeIq_changed hok hname h⟩
    · cases h
      exact .inl .refl

/-- **A stanza changes a room by a sequence of small changes.** -/
theorem roomStep_changed {stanza : Stanza} (hok : ok stanza.ingress)
    (h : roomStep room stanza = some (room', sent)) : Changed ok room room' := by
  rcases roomStep_formThenPlain hok h with hc | ⟨-, -, hc⟩
  · exact hc.changed
  · exact hc.changed

/-- **What every small change keeps holds in every state of a run.** -/
theorem keeps_of_reach {start : Room} {I : Room → Prop}
    (hI : ∀ room room', I room → Change ok room room' → I room') (h₀ : I start)
    (h : Machine.Reach roomStep (fun _ stanza => ok stanza.ingress) start room) : I room :=
  h.invariant h₀ (fun _ _ _ _ hs hok hstep => keeps_of_changed hI (roomStep_changed hok hstep) hs)

end Mukite
