import Mukite.Properties.Occupancy

/-!
# Requests that are refused

The items of a muc#admin request are applied one by one while they are checked, and a request
that is refused at an item keeps what the items before it have done. So it leaves the room as it
was when these items have nothing to change (`Idle`). The first accepted item that has something
to change does change the room (`adminItem_unchanged_iff`); only items after it could undo that.
-/

namespace Mukite

/-! ## What a refused request should leave alone -/

/-- The role, the affiliation and the marks of an occupant. -/
def standing (n : Nat × Participant) : Nat × Int × Int × AffectedList :=
  (n.1, n.2.role, n.2.affiliation, n.2.affectedList)

/-- The five lists and the standing of every occupant are as they were. -/
structure Unchanged (room room' : Room) : Prop where
  affiliations : room'.affiliations = room.affiliations
  occupants : room'.occupants.map standing = room.occupants.map standing

theorem Unchanged.refl (room : Room) : Unchanged room room := ⟨rfl, rfl⟩

/-! ## Items without an effect -/

/-- Filing an entry puts it where it is, as it is. -/
def FilesNothing (lists : Affiliations) (affiliation : Affil) (jid : Jid) (reasonNode : Buffer) :
    Prop :=
  match existingEntry lists jid with
  | none => affiliation = listNone
  | some (list, i) =>
    affiliation = list ∧ affiliation ≠ listNone ∧
      (lists list).items.eraseIdx i ++
        [filedEntry ((lists list).items[i]?.getD affiliationInit) jid reasonNode]
          = (lists list).items

/-- An item that has nothing to change when it is accepted. -/
def Idle (acl : ACLConfig) (room : Room) (target : AdminTarget) : Prop :=
  match target.role, target.affiliation with
  | some role, _ => ∀ n ∈ participantsFindByNick room.participants target.nick,
      n.2.role = role ∧ n.2.affectedList.included = true
  | none, some affiliation =>
    FilesNothing room.affiliations affiliation target.jid target.reasonNode ∧
      ∀ n ∈ room.occupants,
        affiliationssGetByJid room.affiliations acl n.2.jid = n.2.affiliation
  | none, none => True

instance (lists : Affiliations) (affiliation : Affil) (jid : Jid) (reasonNode : Buffer) :
    Decidable (FilesNothing lists affiliation jid reasonNode) :=
  match h : existingEntry lists jid with
  | none => decidable_of_iff (affiliation = listNone) (by simp [FilesNothing, h])
  | some (list, i) =>
    decidable_of_iff (affiliation = list ∧ affiliation ≠ listNone ∧
      (lists list).items.eraseIdx i ++
        [filedEntry ((lists list).items[i]?.getD affiliationInit) jid reasonNode]
          = (lists list).items) (by simp [FilesNothing, h])

instance (acl : ACLConfig) (room : Room) (target : AdminTarget) :
    Decidable (Idle acl room target) :=
  match hr : target.role, ha : target.affiliation with
  | some role, _ =>
    decidable_of_iff (∀ n ∈ participantsFindByNick room.participants target.nick,
      n.2.role = role ∧ n.2.affectedList.included = true) (by simp [Idle, hr])
  | none, some affiliation =>
    decidable_of_iff (FilesNothing room.affiliations affiliation target.jid target.reasonNode ∧
      ∀ n ∈ room.occupants,
        affiliationssGetByJid room.affiliations acl n.2.jid = n.2.affiliation)
      (by simp [Idle, hr, ha])
  | none, none => .isTrue (by simp [Idle, hr, ha])

/-- The items that are accepted before one is refused; `none` when none is refused. -/
def acceptedFirst (acl : ACLConfig) (addr : Nat) :
    AdminState → List ItemRead → Option (List AdminTarget)
  | _, [] => none
  | _, .undefined :: _ => none
  | _, .bad :: _ => some []
  | st, .item target :: rest =>
    match st.room.participants.nodes.get? addr with
    | none => none
    | some sender =>
      match adminItem acl st sender target with
      | .error _ => some []
      | .ok st => (acceptedFirst acl addr st rest).map (target :: ·)

/-- Whatever items a request has accepted before one is refused have nothing to change. -/
def RefusedIdle (room : Room) (ingress : IncomingPacket) (acl : ACLConfig) : Prop :=
  ∀ request ∈ adminRequest room ingress,
    ∀ targets ∈ acceptedFirst acl request.1 { room := room, affected := [] } request.2,
      ∀ target ∈ targets, Idle acl room target

instance (room : Room) (ingress : IncomingPacket) (acl : ACLConfig) :
    Decidable (RefusedIdle room ingress acl) :=
  inferInstanceAs (Decidable (∀ request ∈ adminRequest room ingress,
    ∀ targets ∈ acceptedFirst acl request.1 { room := room, affected := [] } request.2,
      ∀ target ∈ targets, Idle acl room target))

/-! ## One item -/

variable {room room' : Room} {ingress : IncomingPacket} {acl : ACLConfig}
  {sent : List BuilderPacket} {addr : Nat} {st st' : AdminState} {sender : Participant}
  {target : AdminTarget}

theorem participants_ext {l l' : ParticipantsList} (hn : l'.nodes = l.nodes)
    (hs : l'.size = l.size) (hm : l'.maxSize = l.maxSize) : l' = l := by
  cases l
  cases l'
  cases hn
  cases hs
  cases hm
  rfl

theorem room_of_participants (h : room'.participants = room.participants)
    (he : room' = { room with participants := room'.participants }) : room' = room := by
  rw [he, h]

theorem moveEntry_of_filesNothing {lists : Affiliations} {affiliation : Affil} {jid : Jid}
    {reasonNode : Buffer} (h : FilesNothing lists affiliation jid reasonNode) :
    moveEntry lists (existingEntry lists jid) affiliation jid reasonNode = lists := by
  unfold FilesNothing at h
  cases hf : existingEntry lists jid with
  | none =>
    simp only [hf] at h
    simp [moveEntry, h]
  | some found =>
    obtain ⟨list, i⟩ := found
    simp only [hf] at h
    obtain ⟨rfl, hne, hitems⟩ := h
    simp only [moveEntry, hne, if_false]
    funext b
    by_cases hb : b = affiliation
    · subst hb
      simp only [setList, if_true, Dls.append, Dls.delete, hitems]
      cases hl : lists b with
      | mk items size maxSize =>
        simp
    · simp [setList, hb]

theorem affectOne_of_idle {role : Int} {receiver : Participant} {reasonNode : Buffer}
    (hm : (addr, receiver) ∈ st.room.occupants) (hr : receiver.role = role)
    (hi : receiver.affectedList.included = true) :
    affectOne st (addr, receiver) reasonNode (fun p => { p with role := role }) = st := by
  have hf : setAffected reasonNode { receiver with role := role } = receiver := by
    subst hr
    exact settled_setAffected hi
  have hnodes := NodeList.modify_eq_self
    (f := fun p => setAffected reasonNode { p with role := role }) hm hf
  unfold affectOne
  rw [if_pos hi]
  cases st with
  | mk room affected =>
    have hroom : room.modify addr (fun p => setAffected reasonNode { p with role := role })
        = room :=
      room_of_participants (participants_ext hnodes rfl rfl) rfl
    simp only [hroom]

theorem affectEach_of_none {reasonNode : Buffer} {f : Participant → Option Participant}
    (h : ∀ n ∈ st.room.occupants, f n.2 = none) : affectEach st reasonNode f = st := by
  have hnodes := NodeList.mapVals_eq_self (l := st.room.participants.nodes)
    (f := fun p => ((f p).map (setAffected reasonNode)).getD p)
    (fun a x hx => by simp [h (a, x) hx])
  have hroom : st.room.mapVals (fun p => ((f p).map (setAffected reasonNode)).getD p)
      = st.room :=
    room_of_participants (participants_ext hnodes rfl rfl) rfl
  have hfilter : st.room.occupants.filter
      (fun n => (f n.2).isSome && !n.2.affectedList.included) = [] := by
    rw [List.filter_eq_nil_iff]
    intro n hn
    simp [h n hn]
  unfold affectEach
  cases st with
  | mk room affected =>
    simp only at hroom hfilter
    simp only [hroom, hfilter, List.map_nil, List.append_nil]

/-- **An item that has nothing to change changes nothing.** -/
theorem adminItem_of_idle (hidle : Idle acl st.room target)
    (h : adminItem acl st sender target = .ok st') : st' = st := by
  unfold Idle at hidle
  unfold adminItem at h
  split at h
  · cases h
  · split at h
    · next _ role hr =>
      simp only [hr] at hidle
      unfold roleItem at h
      split at h
      · cases h
      · next b receiver hb =>
        split at h
        · cases h
        · cases h
          have := hidle (b, receiver) hb
          exact affectOne_of_idle (findByNick_spec hb).1 this.1 this.2
    · next affiliation hr ha =>
      simp only [hr, ha] at hidle
      unfold affiliationItem at h
      split at h
      · cases h
      · split at h
        · cases h
        · next lists hadd =>
          cases h
          have hlists : lists = st.room.affiliations :=
            (affiliationssAdd_eq hadd).trans (moveEntry_of_filesNothing hidle.1)
          rw [hlists]
          refine affectEach_of_none fun n hn => ?_
          unfold reaffiliate
          simp only [hidle.2 n hn, if_true]
    · cases h
      rfl

/-! ## An item that is accepted and changes nothing -/

theorem standing_of_unchanged {f : Nat × Participant → Nat × Participant}
    (hf : room'.occupants = room.occupants.map f) (h : Unchanged room room') :
    ∀ n ∈ room.occupants, standing (f n) = standing n := by
  have hs := h.occupants
  rw [hf, List.map_map] at hs
  exact List.map_inj_left.mp hs

/-- Filing an entry shows in the lists, unless it lands where it was. -/
theorem filesNothing_of_moveEntry {lists : Affiliations} {affiliation : Affil} {jid : Jid}
    {reasonNode : Buffer}
    (h : moveEntry lists (existingEntry lists jid) affiliation jid reasonNode = lists) :
    FilesNothing lists affiliation jid reasonNode := by
  unfold FilesNothing
  cases hf : existingEntry lists jid with
  | none =>
    simp only [hf, moveEntry] at h ⊢
    by_contra hne
    rw [if_neg hne] at h
    have hlen := congrArg (fun l => (l affiliation).items.length) h
    simp [setList] at hlen
  | some found =>
    obtain ⟨list, i⟩ := found
    have hi := existingEntry_lt hf
    simp only [hf, moveEntry] at h ⊢
    by_cases hnone : affiliation = listNone
    · rw [if_pos hnone] at h
      have hlen := congrArg (fun l => (l list).items.length) h
      simp only [setList, if_true, Dls.items_delete, List.length_eraseIdx, hi] at hlen
      omega
    · rw [if_neg hnone] at h
      have hlist : affiliation = list := by
        by_contra hne
        have hlen := congrArg (fun l => (l affiliation).items.length) h
        simp [setList, hne] at hlen
      subst hlist
      have hitems := congrArg (fun l => (l affiliation).items) h
      simp only [setList, if_true, Dls.items_append, Dls.items_delete] at hitems
      exact ⟨rfl, hnone, hitems⟩

/-- **An accepted item changes nothing exactly when it has nothing to change.** -/
theorem adminItem_unchanged_iff (h : adminItem acl st sender target = .ok st') :
    Unchanged st.room st'.room ↔ Idle acl st.room target := by
  refine ⟨fun hun => ?_, fun hidle => adminItem_of_idle hidle h ▸ .refl st.room⟩
  unfold adminItem at h
  split at h
  · cases h
  · split at h
    · next _ role hr =>
      unfold Idle
      simp only [hr]
      unfold roleItem at h
      split at h
      · cases h
      · next b receiver hb =>
        split at h
        · cases h
        · cases h
          rw [hb]
          intro n hn
          obtain rfl := Option.some.inj hn
          have hsame := standing_of_unchanged (f := fun n => if n.1 = b then
            (n.1, setAffected target.reasonNode { n.2 with role := role }) else n) rfl hun _
              (findByNick_spec hb).1
          simp only [if_true, standing, setAffected, Prod.mk.injEq] at hsame
          cases hinc : receiver.affectedList.included with
          | true =>
            simp only [hinc, if_true] at hsame
            exact ⟨hsame.2.1.symm, rfl⟩
          | false =>
            simp only [hinc] at hsame
            have := congrArg AffectedList.included hsame.2.2.2
            simp [hinc] at this
    · next affiliation hr ha =>
      unfold Idle
      simp only [hr, ha]
      unfold affiliationItem at h
      split at h
      · cases h
      · split at h
        · cases h
        · next lists hadd =>
          cases h
          have hlists : lists = st.room.affiliations := hun.affiliations
          rw [affiliationssAdd_eq hadd] at hlists
          refine ⟨filesNothing_of_moveEntry hlists, fun n hn => ?_⟩
          have hsame := standing_of_unchanged (f := fun n => (n.1,
            ((reaffiliate lists acl n.2).map (setAffected target.reasonNode)).getD n.2)) rfl hun n hn
          rw [affiliationssAdd_eq hadd, hlists] at hsame
          by_contra hne
          simp only [reaffiliate, hne, if_false, Option.map_some, Option.getD_some, standing,
            setAffected, Prod.mk.injEq] at hsame
          split at hsame <;> exact hne hsame.2.2.1
    · next hr ha =>
      unfold Idle
      simp only [hr, ha]

/-! ## The loop -/

/-- **A request that is refused after items that have nothing to change changes nothing.** -/
theorem adminLoop_of_idle : ∀ {reads : List ItemRead} {st st' : AdminState} {error : XMPPError}
    {targets : List AdminTarget}, adminLoop acl addr st reads = some (.refused st' error) →
    acceptedFirst acl addr st reads = some targets →
    (∀ target ∈ targets, Idle acl st.room target) → st' = st
  | [], st, st', error, targets, h, _, _ => by cases h
  | .undefined :: _, st, st', error, targets, h, _, _ => by cases h
  | .bad :: _, st, st', error, targets, h, _, _ => by
    cases h
    rfl
  | .item target :: rest, st, st', error, targets, h, ha, hidle => by
    rw [adminLoop] at h
    rw [acceptedFirst] at ha
    cases hs : st.room.participants.nodes.get? addr with
    | none => simp [hs] at h
    | some sender =>
      simp only [hs] at h ha
      cases hi : adminItem acl st sender target with
      | error e =>
        simp only [hi] at h
        cases h
        rfl
      | ok st₁ =>
        simp only [hi] at h ha
        obtain ⟨more, hmore, rfl⟩ := Option.map_eq_some_iff.mp ha
        obtain rfl := adminItem_of_idle (hidle target List.mem_cons_self) hi
        exact adminLoop_of_idle h hmore (fun t ht => hidle t (List.mem_cons_of_mem _ ht))

/-- Once the items before the last accepted one have nothing to change, that one decides. -/
theorem adminLoop_unchanged_iff : ∀ {before : List AdminTarget} {reads : List ItemRead}
    {st st' : AdminState} {error : XMPPError} {last : AdminTarget},
    adminLoop acl addr st reads = some (.refused st' error) →
    acceptedFirst acl addr st reads = some (before ++ [last]) →
    (∀ target ∈ before, Idle acl st.room target) →
    (Unchanged st.room st'.room ↔ Idle acl st.room last)
  | before, [], st, st', error, last, h, _, _ => by cases h
  | before, .undefined :: _, st, st', error, last, h, _, _ => by cases h
  | before, .bad :: _, st, st', error, last, _, ha, _ => by
    rw [acceptedFirst] at ha
    simp at ha
  | before, .item target :: rest, st, st', error, last, h, ha, hidle => by
    rw [adminLoop] at h
    rw [acceptedFirst] at ha
    cases hs : st.room.participants.nodes.get? addr with
    | none => simp [hs] at h
    | some sender =>
      simp only [hs] at h ha
      cases hi : adminItem acl st sender target with
      | error e =>
        simp only [hi] at ha
        simp at ha
      | ok st₁ =>
        simp only [hi] at h ha
        obtain ⟨more, hmore, hcons⟩ := Option.map_eq_some_iff.mp ha
        cases before with
        | nil =>
          obtain ⟨rfl, rfl⟩ := List.cons.inj hcons
          have hend : st' = st₁ := adminLoop_of_idle h hmore (fun _ ht => absurd ht List.not_mem_nil)
          rw [hend]
          exact adminItem_unchanged_iff hi
        | cons first before =>
          obtain ⟨rfl, rfl⟩ := List.cons.inj hcons
          obtain rfl := adminItem_of_idle (hidle target List.mem_cons_self) hi
          exact adminLoop_unchanged_iff h hmore
            (fun t ht => hidle t (List.mem_cons_of_mem _ ht))

theorem acceptedFirst_isSome : ∀ {reads : List ItemRead} {st st' : AdminState}
    {error : XMPPError}, adminLoop acl addr st reads = some (.refused st' error) →
    (acceptedFirst acl addr st reads).isSome
  | [], st, st', error, h => by cases h
  | .undefined :: _, st, st', error, h => by cases h
  | .bad :: _, st, st', error, h => rfl
  | .item target :: rest, st, st', error, h => by
    rw [adminLoop] at h
    rw [acceptedFirst]
    cases hs : st.room.participants.nodes.get? addr with
    | none => simp [hs] at h
    | some sender =>
      simp only [hs] at h ⊢
      cases hi : adminItem acl st sender target with
      | error e => rfl
      | ok st₁ =>
        simp only [hi] at h ⊢
        rw [Option.isSome_map]
        exact acceptedFirst_isSome h

/-! ## A whole query -/

theorem type_ne_error_presencePacket {sender receiver : Nat × Participant} {newNick : Buffer}
    {statusCodes : Nat} :
    (presencePacket room sender newNick statusCodes receiver).type ≠ stanzaError := by
  unfold presencePacket
  dsimp only
  split <;> decide

/-- What is announced after the answer is no error. -/
theorem type_ne_error_announceAffected : ∀ {affected : List Nat} {room : Room}
    {packet : BuilderPacket}, packet ∈ (announceAffected room affected).2 →
    packet.type ≠ stanzaError
  | [], room, packet, h => absurd h List.not_mem_nil
  | addr :: rest, room, packet, h => by
    rw [announceAffected] at h
    split at h
    · exact type_ne_error_announceAffected h
    · next p hp =>
      rcases List.mem_append.mp h with h | h
      · obtain ⟨receiver, -, rfl⟩ := List.mem_map.mp h
        exact type_ne_error_presencePacket
      · exact type_ne_error_announceAffected h

theorem type_ne_error_answered {st : AdminState} {iqType : Nat} {sysData : SysData}
    {packet : BuilderPacket}
    (h : packet ∈ ({ type := stanzaIqResult, iqType := iqType, sysData := sysData } ::
      (announceAffected st.room st.affected).2 : List BuilderPacket)) :
    packet.type ≠ stanzaError := by
  rcases List.mem_cons.mp h with rfl | h
  · show stanzaIqResult ≠ stanzaError
    decide
  · exact type_ne_error_announceAffected h

/-- A request that is answered with an error has been refused at one of its items. -/
theorem routeIq_request_error {reads : List ItemRead}
    (hreq : adminRequest room ingress = some (addr, reads))
    (hr : routeIq room ingress acl = some (room', sent))
    (herror : ∃ packet ∈ sent, packet.type = stanzaError) :
    ∃ st error, adminOutcome room acl addr reads = some (.refused st error) ∧ room' = st.room := by
  obtain ⟨packet, hpacket, herror⟩ := herror
  obtain ⟨-, hres, hanswer⟩ := @answerIq_of_request room ingress acl addr reads hreq
  unfold routeIq at hr
  rw [hres, hanswer] at hr
  cases hloop : adminOutcome room acl addr reads with
  | none =>
    rw [hloop] at hr
    cases hr
  | some r =>
    rw [hloop] at hr
    cases r with
    | refused st error => exact ⟨st, error, rfl, bounce_room hr⟩
    | done st =>
      cases hr
      exact absurd herror (type_ne_error_answered hpacket)

/-- Any other query that is answered with an error leaves the room alone. -/
theorem routeIq_error (hname : ingress.name = .iq) (hreq : adminRequest room ingress = none)
    (hr : routeIq room ingress acl = some (room', sent))
    (herror : ∃ packet ∈ sent, packet.type = stanzaError) : room' = room := by
  obtain ⟨packet, hpacket, herror⟩ := herror
  unfold routeIq at hr
  split at hr
  · exact proxyIq_room hr
  · next hres =>
    obtain ⟨answer, ha, hr⟩ := Option.bind_eq_some_iff.mp hr
    cases answerIq_case hname (by simpa using hres) ha with
    | refused error => exact bounce_room hr
    | reply iqType sysData =>
      simp only [IqAnswer.reply] at hr
      split at hr
      · exact bounce_room hr
      · cases hr
        rfl
    | items addr sender query reads r hsome hs hquery hreads hloop =>
      rw [hreq] at hsome
      cases hsome
    | destroyed resume =>
      cases hr
      exact absurd herror (type_ne_error_answered hpacket)
    | configured node level answer hconf =>
      obtain ⟨room₁, -, rfl⟩ := Option.map_eq_some_iff.mp hconf
      cases hr
      exact absurd herror (type_ne_error_answered hpacket)

/--
**A query that is answered with an error leaves lists and occupants as they were when the items
it accepted first have nothing to change**, and when all of these but the last have nothing to
change, only then.
-/
theorem refused_unchanged (hname : ingress.name = .iq)
    (hr : routeIq room ingress acl = some (room', sent))
    (herror : ∃ packet ∈ sent, packet.type = stanzaError) :
    (RefusedIdle room ingress acl → Unchanged room room') ∧
      ∀ addr reads before last, adminRequest room ingress = some (addr, reads) →
        acceptedFirst acl addr { room := room, affected := [] } reads = some (before ++ [last]) →
        (∀ target ∈ before, Idle acl room target) →
        (Unchanged room room' ↔ Idle acl room last) := by
  refine ⟨fun hidle => ?_, fun addr reads before last hreq haccepted hidle => ?_⟩
  · cases hreq : adminRequest room ingress with
    | none => exact routeIq_error hname hreq hr herror ▸ .refl room
    | some request =>
      obtain ⟨addr, reads⟩ := request
      obtain ⟨st, error, hloop, rfl⟩ := routeIq_request_error hreq hr herror
      obtain ⟨targets, ht⟩ := Option.isSome_iff_exists.mp (acceptedFirst_isSome hloop)
      have hst := adminLoop_of_idle hloop ht (hidle (addr, reads) hreq targets ht)
      rw [hst]
      exact .refl room
  · obtain ⟨st, error, hloop, rfl⟩ := routeIq_request_error hreq hr herror
    exact adminLoop_unchanged_iff hloop haccepted hidle

/-! ## Requests that are refused at their second item -/

/-- The room after the given stanzas, before and after one more query, and the answer. -/
def beforeAfter (texts : List String) (query : String) :
    Option (Room × IncomingPacket × Room × List BuilderPacket) := do
  let room ← Machine.run roomStep (roomInit (lit "room")) (stanzasOfTexts openAcl 0 0 texts)
  let ingress ← received query
  let (room', sent) ← routeIq room ingress openAcl
  return (room, ingress, room', sent)

theorem beforeAfter_spec {texts : List String} {query : String}
    (h : beforeAfter texts query = some (room, ingress, room', sent)) :
    Machine.run roomStep (roomInit (lit "room")) (stanzasOfTexts openAcl 0 0 texts) = some room ∧
      received query = some ingress ∧ routeIq room ingress openAcl = some (room', sent) := by
  unfold beforeAfter at h
  obtain ⟨room₁, hrun, h⟩ := Option.bind_eq_some_iff.mp h
  obtain ⟨ingress₁, hi, h⟩ := Option.bind_eq_some_iff.mp h
  obtain ⟨⟨room₂, sent₂⟩, hr, h⟩ := Option.bind_eq_some_iff.mp h
  cases h
  exact ⟨hrun, hi, hr⟩

/-- Makes a member of somebody who is not there, then names nobody. -/
def memberThenNobody : String :=
  adminSet "alice@h" "<item jid='carol@x' affiliation='member'/><item nick='nobody' role='none'/>"

set_option maxRecDepth 100000 in
/-- The request is answered with an error, and `carol@x` is a member afterwards. -/
theorem refused_member_stays :
    ∃ room ingress room' sent,
      Machine.run roomStep (roomInit (lit "room")) (stanzasOfTexts openAcl 0 0 joins) = some room ∧
      received memberThenNobody = some ingress ∧ ingress.name = .iq ∧
      routeIq room ingress openAcl = some (room', sent) ∧
      (∃ packet ∈ sent, packet.type = stanzaError) ∧ ¬ Unchanged room room' := by
  have hany : (beforeAfter joins memberThenNobody).any (fun (room, ingress, room', sent) =>
      ingress.name == .iq && sent.any (fun packet => packet.type == stanzaError) &&
        (room'.affiliations listMember).items.length
          != (room.affiliations listMember).items.length) = true := by decide +kernel
  obtain ⟨⟨room, ingress, room', sent⟩, h, hfacts⟩ := (Option.any_eq_true _ _).mp hany
  simp only [Bool.and_eq_true, List.any_eq_true, beq_iff_eq, bne_iff_ne] at hfacts
  obtain ⟨⟨hname, herror⟩, hlen⟩ := hfacts
  obtain ⟨hrun, hi, hr⟩ := beforeAfter_spec h
  refine ⟨room, ingress, room', sent, hrun, hi, hname, hr, herror, fun hun => hlen ?_⟩
  rw [hun.affiliations]

set_option maxRecDepth 100000 in
/-- The result at a request whose first item has nothing to change. -/
theorem refused_unchanged_none :
    ∃ room ingress room' sent,
      routeIq room ingress openAcl = some (room', sent) ∧
      (∃ packet ∈ sent, packet.type = stanzaError) ∧ Unchanged room room' := by
  have hany : (beforeAfter joins (adminSet "alice@h" ("<item jid='carol@x' affiliation='none'/>" ++
      "<item nick='nobody' role='none'/>"))).any (fun (room, ingress, _, sent) =>
        ingress.name == .iq && sent.any (fun packet => packet.type == stanzaError) &&
          decide (RefusedIdle room ingress openAcl)) = true := by decide +kernel
  obtain ⟨⟨room, ingress, room', sent⟩, h, hfacts⟩ := (Option.any_eq_true _ _).mp hany
  simp only [Bool.and_eq_true, List.any_eq_true, beq_iff_eq, decide_eq_true_eq] at hfacts
  obtain ⟨⟨hname, herror⟩, hidle⟩ := hfacts
  obtain ⟨-, -, hr⟩ := beforeAfter_spec h
  exact ⟨room, ingress, room', sent, hr, herror, (refused_unchanged hname hr herror).1 hidle⟩

end Mukite
