import Mukite.Properties.Outsiders
import Mukite.Properties.Settings

/-!
# What the ranks of a room are for

The rules of a room belong to its owners, the lists to its admins, and what becomes of other
occupants to its moderators. As long as nobody of such a rank sends anything, all that stays as it
is (`ranks_respected`).
-/

namespace Mukite

open Machine

variable {room room' : Room} {stanza : Stanza} {ingress : IncomingPacket} {acl : ACLConfig}
  {sent : List BuilderPacket} {addr : Nat} {P Q : Nat → Participant → Prop}

/-! ## What is left alone -/

/-- A flag that a configuration form can set. -/
def IsOption (flag : MucFlags) : Prop := flag &&& (mucFlagJustCreated ||| mucFlagDestroyed) = 0#32

/-- Two states of a room with the same rules. -/
structure SameRules (room room' : Room) : Prop where
  settings : room'.settings = room.settings
  flags : ∀ flag, IsOption flag → room'.hasFlag flag = room.hasFlag flag

/-- Also the lists are the same, and the occupants that `P` picks are still there as they were. -/
structure Untouched (P : Nat → Participant → Prop) (room room' : Room) : Prop
    extends SameRules room room' where
  lists : room'.affiliations = room.affiliations
  others : ∀ addr p, (addr, p) ∈ room.occupants → P addr p → (addr, p) ∈ room'.occupants

/-- The two flags that no form sets are others. -/
theorem IsOption.apart {flag : MucFlags} (h : IsOption flag) :
    mucFlagJustCreated &&& flag = 0#32 ∧ mucFlagDestroyed &&& flag = 0#32 := by
  unfold IsOption at h
  rw [BitVec.and_or_distrib_left, BitVec.or_eq_zero_iff] at h
  rw [BitVec.and_comm mucFlagJustCreated, BitVec.and_comm mucFlagDestroyed]
  exact h

theorem SameRules.refl (room : Room) : SameRules room room := ⟨rfl, fun _ _ => rfl⟩

theorem SameRules.trans {room₁ : Room} (h : SameRules room room₁) (h' : SameRules room₁ room') :
    SameRules room room' :=
  ⟨h'.settings.trans h.settings, fun flag hf => (h'.flags flag hf).trans (h.flags flag hf)⟩

theorem SameRules.of_eq (hs : room'.settings = room.settings) (hf : room'.flags = room.flags) :
    SameRules room room' :=
  ⟨hs, fun flag _ => by unfold Room.hasFlag; rw [hf]⟩

namespace Untouched

theorem refl (room : Room) : Untouched P room room := ⟨.refl room, rfl, fun _ _ hp _ => hp⟩

theorem trans {room₁ : Room} (h : Untouched P room room₁) (h' : Untouched P room₁ room') :
    Untouched P room room' where
  toSameRules := h.toSameRules.trans h'.toSameRules
  lists := h'.lists.trans h.lists
  others := fun addr p hp hP => h'.others addr p (h.others addr p hp hP) hP

theorem mono (hPQ : ∀ addr p, (addr, p) ∈ room.occupants → P addr p → Q addr p)
    (h : Untouched Q room room') : Untouched P room room' :=
  { h with others := fun addr p hp hP => h.others addr p hp (hPQ addr p hp hP) }

theorem of_occupants (hrules : SameRules room room') (hl : room'.affiliations = room.affiliations)
    (ho : room'.occupants = room.occupants) : Untouched P room room' :=
  ⟨hrules, hl, fun _ _ hp _ => ho ▸ hp⟩

theorem modify (f : Participant → Participant) :
    Untouched (fun b _ => b ≠ addr) room (room.modify addr f) where
  toSameRules := .of_eq rfl rfl
  lists := rfl
  others := by
    intro b p hp hb
    exact Room.mem_occupants_modify.mpr ⟨p, hp, (if_neg hb).symm⟩

theorem leave : Untouched (fun b _ => b ≠ addr) room (roomLeave room addr) where
  settings := Room.settings_roomLeave room addr
  flags := fun _ hf => hasFlag_roomLeave hf.apart.2
  lists := affiliations_roomLeave room addr
  others := fun _ _ hp hb => mem_occupants_roomLeave.mpr ⟨hp, hb⟩

theorem opened : Untouched P room (room.setFlag mucFlagJustCreated false) where
  settings := rfl
  flags := fun _ hf => Room.hasFlag_setFlag hf.apart.1
  lists := rfl
  others := fun _ _ hp _ => hp

theorem join {jid : Jid} {nick : Buffer} {affiliation : Int} :
    Untouched P room (roomJoin room jid nick affiliation).1 where
  settings := rfl
  flags := fun _ _ => rfl
  lists := rfl
  others := fun _ _ hp _ => NodeList.mem_cons.mpr (.inr hp)

end Untouched

/-! ## Presences, messages and errors -/

/-- The stanza comes from the participant at `addr`. -/
def Sends (room : Room) (ingress : IncomingPacket) (addr : Nat) : Prop :=
  ∃ p, participantsFindByJid room.participants ingress.realFrom = some (addr, p)

/-- What the sender does to itself leaves everybody else alone. -/
theorem Untouched.bySender {p : Participant} (h : Untouched (fun b _ => b ≠ addr) room room')
    (hs : participantsFindByJid room.participants ingress.realFrom = some (addr, p)) :
    Untouched (fun b _ => ¬ Sends room ingress b) room room' := by
  refine h.mono fun b q _ hb => ?_
  rintro rfl
  exact hb ⟨p, hs⟩

theorem announceCase_untouched {p : Participant} {type : Nat} {inner : Buffer} {justJoined : Bool}
    (h : AnnounceCase room addr p type inner justJoined room' sent) :
    Untouched (fun b _ => b ≠ addr) room room' := by
  cases h with
  | left => exact ((Untouched.modify _).trans .leave).trans .opened
  | stayed => exact ((Untouched.modify _).trans (.modify _)).trans .opened

theorem routePresence_untouched (hopen : room.hasFlag mucFlagJustCreated = false)
    (h : routePresence room ingress acl = some (room', sent)) :
    Untouched (fun b _ => ¬ Sends room ingress b) room room' := by
  unfold routePresence at h
  obtain ⟨r, hr, h⟩ := Option.bind_eq_some_iff.mp h
  cases presenceSender_case hr with
  | ignored | bounced =>
    cases h
    exact .refl room
  | turnedAway =>
    cases h
    rw [withCreator_old hopen]
    exact .refl room
  | present addr sender hs =>
    obtain ⟨⟨room₂, sent₂⟩, ha, h⟩ := Option.bind_eq_some_iff.mp h
    cases h
    obtain ⟨inner, -, hc⟩ := presenceAnnounce_case (findByJid_mem hs) ha
    exact (announceCase_untouched hc).bySender hs
  | renamed addr sender hs htype hres hnick =>
    obtain ⟨⟨room₂, sent₂⟩, ha, h⟩ := Option.bind_eq_some_iff.mp h
    cases h
    obtain ⟨inner, -, hc⟩ := presenceAnnounce_case (mem_occupants_renamed (findByJid_mem hs)) ha
    exact ((Untouched.modify _).trans (announceCase_untouched hc)).bySender hs
  | joined mucNode affiliation hjid htype hres hnick hadmission =>
    obtain ⟨⟨room₂, sent₂⟩, ha, h⟩ := Option.bind_eq_some_iff.mp h
    cases h
    obtain ⟨inner, -, hc⟩ := presenceAnnounce_case mem_occupants_roomJoin ha
    rw [withCreator_old hopen] at hc
    refine (Untouched.join.trans (announceCase_untouched hc)).mono fun b q hq _ => ?_
    -- nobody has had the place of the newcomer
    rintro rfl
    exact NodeList.fresh_notMem (mem_addrs_of_occupant hq)

theorem publish_untouched {sender : Participant}
    (h : publish room ingress sender = some (room', sent)) : Untouched P room room' := by
  unfold publish at h
  obtain ⟨inner, -, h⟩ := Option.bind_eq_some_iff.mp h
  obtain ⟨history, -, h⟩ := Option.bind_eq_some_iff.mp h
  cases h
  exact .of_occupants (.of_eq rfl rfl) rfl rfl

theorem routePublicMessage_untouched {sender : Participant} {limit ticks : Int}
    (h : routePublicMessage room ingress addr sender limit ticks = some (room', sent)) :
    Untouched (fun b _ => b ≠ addr) room room' := by
  unfold routePublicMessage at h
  split at h
  · exact bounce_room h ▸ .refl _
  · split at h
    · exact bounce_room h ▸ .refl _
    · obtain ⟨subject, -, h⟩ := Option.bind_eq_some_iff.mp h
      refine (Untouched.modify fun p => { p with lastMessageTime := ticks }).trans ?_
      cases subject with
      | none => exact publish_untouched h
      | some newSubject =>
        dsimp only at h
        split at h
        · exact bounce_room h ▸ .refl _
        · split at h
          · exact bounce_room h ▸ .refl _
          · obtain ⟨node, -, h⟩ := Option.bind_eq_some_iff.mp h
            refine .trans ?_ (publish_untouched h)
            exact .of_occupants (.of_eq rfl rfl) rfl rfl

theorem routeMessage_untouched {limit ticks : Int}
    (h : routeMessage room ingress limit ticks = some (room', sent)) :
    Untouched (fun b _ => ¬ Sends room ingress b) room room' := by
  unfold routeMessage at h
  split at h
  · exact bounce_room h ▸ .refl _
  · next addr sender hs =>
    split at h
    · exact (routePublicMessage_untouched h).bySender hs
    · unfold routePrivateMessage at h
      split at h
      · exact bounce_room h ▸ .refl _
      · split at h
        · exact bounce_room h ▸ .refl _
        · split at h
          · exact bounce_room h ▸ .refl _
          · obtain ⟨inner, -, h⟩ := Option.bind_eq_some_iff.mp h
            cases h
            exact .refl room

theorem routeError_untouched (h : routeError room ingress = (room', sent)) :
    Untouched (fun b _ => ¬ Sends room ingress b) room room' := by
  unfold routeError at h
  split at h
  · cases h
    exact .refl room
  · next addr sender hs =>
    cases h
    exact ((Untouched.modify _).trans .leave).bySender hs

/-! ## The occupants that a query affects -/

theorem announceOne_untouched {p : Participant} :
    Untouched (fun b _ => b ≠ addr) room (announceOne room addr p).1 := by
  have hannounced : Untouched (fun b _ => b ≠ addr) room
      ((room.modify addr (announced room)).modify addr clearReason) :=
    (Untouched.modify _).trans (.modify _)
  unfold announceOne
  dsimp only
  split
  · exact hannounced.trans .leave
  · exact hannounced

theorem announceAffected_untouched : ∀ {affected : List Nat} {room : Room},
    Untouched (fun b _ => b ∉ affected) room (announceAffected room affected).1
  | [], room => .refl room
  | addr :: rest, room => by
    unfold announceAffected
    split
    · refine announceAffected_untouched.mono fun b q _ hb => ?_
      exact fun hrest => hb (List.mem_cons_of_mem addr hrest)
    · next p hp =>
      have hone : Untouched (fun b _ => b ∉ addr :: rest) room (announceOne room addr p).1 :=
        announceOne_untouched.mono fun b q _ hb => List.ne_of_not_mem_cons hb
      have hrest : Untouched (fun b _ => b ∉ addr :: rest) (announceOne room addr p).1
          (announceAffected (announceOne room addr p).1 rest).1 :=
        announceAffected_untouched.mono fun b q _ hb => List.not_mem_of_not_mem_cons hb
      exact hone.trans hrest

/-! ## Queries -/

/-- What every accepted item keeps, the loop over the items keeps. -/
theorem adminLoop_rule {I : AdminState → Prop}
    (hitem : ∀ st st' sender target, I st → (addr, sender) ∈ st.room.occupants →
      adminItem acl st sender target = .ok st' → I st') :
    ∀ {reads : List ItemRead} {st : AdminState} {r : AdminResult}, I st →
      adminLoop acl addr st reads = some r → I r.state
  | [], st, r, hI, h => by
    cases h
    exact hI
  | .undefined :: _, st, r, hI, h => by cases h
  | .bad :: _, st, r, hI, h => by
    cases h
    exact hI
  | .item target :: rest, st, r, hI, h => by
    rw [adminLoop] at h
    split at h
    · cases h
    · next sender hs =>
      split at h
      · cases h
        exact hI
      · next st' hst =>
        exact adminLoop_rule hitem
          (hitem st st' sender target hI (NodeList.get?_eq_some_iff.mp hs) hst) h

theorem adminItem_rules {st st' : AdminState} {sender : Participant} {target : AdminTarget}
    (h : adminItem acl st sender target = .ok st') : SameRules st.room st'.room := by
  refine .of_eq (settings_adminItem h) ?_
  unfold adminItem at h
  split at h
  · cases h
  · split at h
    · unfold roleItem at h
      split at h
      · cases h
      · split at h <;> cases h
        rfl
    · unfold affiliationItem at h
      split at h
      · cases h
      · split at h <;> cases h
        rfl
    · cases h
      rfl

/-- A participant whose role and presence are up to admins only. -/
def Ranking (p : Participant) : Prop := affilAdmin ≤ p.affiliation ∨ roleModerator ≤ p.role

/-- An item of somebody below an admin is about the role of somebody below a moderator. -/
theorem adminItem_low {st st' : AdminState} {sender : Participant} {target : AdminTarget}
    (hlow : sender.affiliation < affilAdmin) (h : adminItem acl st sender target = .ok st') :
    st' = st ∨ ∃ b p f, (b, p) ∈ st.room.occupants ∧ ¬ Ranking p ∧
      st'.room = st.room.modify b f ∧ (∀ q, (f q).affiliation = q.affiliation) ∧
      ∀ c ∈ st'.affected, c ∈ st.affected ∨ c = b := by
  unfold adminItem at h
  split at h
  · cases h
  · split at h
    · next role _ =>
      unfold roleItem at h
      split at h
      · cases h
      · next b p hfound =>
        split at h
        · cases h
        · next hpermitted =>
          cases h
          refine .inr ⟨b, p, _, (findByNick_spec hfound).1, ?_, rfl, fun q => ?_, fun c hc => ?_⟩
          · rintro (hadmin | hmoderator)
            · exact hpermitted (.inl hadmin)
            · exact hpermitted (.inr ⟨hlow, .inl hmoderator⟩)
          · have hsame : SamePlace q { q with role := role } := ⟨rfl, rfl, rfl⟩
            exact (samePlace_setAffected hsame).affiliation
          · unfold affectOne at hc
            dsimp only at hc
            split at hc
            · exact .inl hc
            · exact (List.mem_append.mp hc).imp_right List.mem_singleton.mp
    · unfold affiliationItem at h
      rw [if_pos hlow] at h
      cases h
    · cases h
      exact .inl rfl

/-- The items so far are of somebody below an admin. -/
structure LowItems (room : Room) (st : AdminState) : Prop where
  untouched : Untouched (fun _ p => Ranking p) room st.room
  unaffected : ∀ b p, (b, p) ∈ room.occupants → Ranking p → b ∉ st.affected
  affiliations : ∀ b p, (b, p) ∈ st.room.occupants →
    ∃ q, (b, q) ∈ room.occupants ∧ p.affiliation = q.affiliation

theorem LowItems.item {st st' : AdminState} {sender : Participant} {target : AdminTarget}
    (h : LowItems room st) (hlow : sender.affiliation < affilAdmin)
    (hitem : adminItem acl st sender target = .ok st') : LowItems room st' := by
  rcases adminItem_low hlow hitem with rfl | ⟨b, p, f, hp, hplain, hroom, hf, haffected⟩
  · exact h
  · have hne : ∀ c q, (c, q) ∈ st.room.occupants → Ranking q → c ≠ b := by
      rintro c q hq hrank rfl
      exact hplain (NodeList.val_unique hq hp ▸ hrank)
    constructor
    · rw [hroom]
      exact h.untouched.trans ((Untouched.modify f).mono hne)
    · intro c q hq hrank hc
      rcases haffected c hc with hold | hnew
      · exact h.unaffected c q hq hrank hold
      · exact hne c q (h.untouched.others c q hq hrank) hrank hnew
    · intro c q hq
      rw [hroom] at hq
      obtain ⟨q₀, hq₀, rfl⟩ := Room.mem_occupants_modify.mp hq
      obtain ⟨q₁, hq₁, haff⟩ := h.affiliations c q₀ hq₀
      refine ⟨q₁, hq₁, ?_⟩
      split
      · exact (hf q₀).trans haff
      · exact haff

/-- What a query of somebody below an owner leads to. -/
inductive LowAnswer (room : Room) (ingress : IncomingPacket) (acl : ACLConfig) : IqAnswer → Prop
  | refused (error : XMPPError) : LowAnswer room ingress acl (.refused room error)
  | reply (iqType : Nat) (sysData : SysData) :
      LowAnswer room ingress acl (.reply room iqType sysData)
  | items (addr : Nat) (sender : Participant) (reads : List ItemRead) (r : AdminResult)
      (hs : participantsFindByJid room.participants ingress.realFrom = some (addr, sender))
      (hrole : roleModerator ≤ sender.role) (hloop : adminOutcome room acl addr reads = some r) :
      LowAnswer room ingress acl (answerOfItems r)

theorem getIq_low {mem : Bytes} {query : QueryNode} {sender : Option (Nat × Participant)}
    {answer : IqAnswer} (h : getIq room mem query sender = some answer) :
    LowAnswer room ingress acl answer := by
  unfold getIq at h
  split_ifs at h
  · cases h
    exact .reply _ _
  · cases h
    exact .reply _ _
  · cases h
    exact .refused _
  · unfold getAffiliations at h
    split_ifs at h
    · cases h
      exact .refused _
    · cases sender with
      | none =>
        cases h
        exact .refused _
      | some found =>
        dsimp only at h
        split_ifs at h
        · cases h
          exact .refused _
        · obtain ⟨next, -, h⟩ := Option.bind_eq_some_iff.mp h
          split at h
          · split_ifs at h
            · cases h
              exact .refused _
            · cases h
              exact .reply _ _
          · cases h
            exact .refused _
  · cases h
    unfold getConfig
    split
    · exact .refused _
    · split_ifs
      · exact .refused _
      · exact .reply _ _
  · cases h
    exact .reply _ _

theorem setAffiliations_low {mem : Bytes} {query : QueryNode} {answer : IqAnswer}
    (h : setAffiliations room mem query acl
      (participantsFindByJid room.participants ingress.realFrom) = some answer) :
    LowAnswer room ingress acl answer := by
  unfold setAffiliations at h
  split at h
  · cases h
    exact .refused _
  · cases hs : participantsFindByJid room.participants ingress.realFrom with
    | none =>
      rw [hs] at h
      cases h
      exact .refused _
    | some found =>
      obtain ⟨addr, sender⟩ := found
      rw [hs] at h
      dsimp only at h
      split at h
      · cases h
        exact .refused _
      · next hrole =>
        split at h
        · cases h
        · next st error hloop =>
          cases h
          exact .items addr sender _ (.refused st error) hs (Int.not_lt.mp hrole) hloop
        · next st hloop =>
          cases h
          exact .items addr sender _ (.done st) hs (Int.not_lt.mp hrole) hloop

/-- The sender of a stanza, if it is in the room, has an affiliation below the given one. -/
def SentBelow (affiliation : Int) (room : Room) (ingress : IncomingPacket) : Prop :=
  ∀ addr p, participantsFindByJid room.participants ingress.realFrom = some (addr, p) →
    p.affiliation < affiliation

theorem setConfig_low {query : QueryNode} {answer : IqAnswer}
    (hlow : SentBelow affilOwner room ingress)
    (h : setConfig room ingress.mem query acl
      (participantsFindByJid room.participants ingress.realFrom) = some answer) :
    LowAnswer room ingress acl answer := by
  unfold setConfig at h
  split at h
  · cases h
    exact .refused _
  · cases hs : participantsFindByJid room.participants ingress.realFrom with
    | none =>
      rw [hs] at h
      cases h
      exact .refused _
    | some found =>
      rw [hs] at h
      dsimp only at h
      rw [if_pos (hlow found.1 found.2 hs)] at h
      cases h
      exact .refused _

theorem answerIq_low {answer : IqAnswer} (hlow : SentBelow affilOwner room ingress)
    (h : answerIq room ingress acl = some answer) : LowAnswer room ingress acl answer := by
  unfold answerIq at h
  obtain ⟨found, -, h⟩ := Option.bind_eq_some_iff.mp h
  cases found with
  | none =>
    cases h
    exact .refused _
  | some query =>
    dsimp only at h
    split at h
    · exact getIq_low h
    · split at h
      · unfold setIq at h
        split_ifs at h
        · exact setAffiliations_low h
        · exact setConfig_low hlow h
        · cases h
          exact .reply _ _
      · cases h
        exact .reply _ _

theorem room_answerOfItems (r : AdminResult) : (answerOfItems r).room = r.state.room := by
  cases r <;> rfl

/-- A query changes the room as it is answered, and then by what is announced. -/
theorem routeIq_answer (h : routeIq room ingress acl = some (room', sent)) :
    room' = room ∨ ∃ answer, answerIq room ingress acl = some answer ∧
      (room' = answer.room ∨ ∃ st iqType sysData, answer = .answered st iqType sysData ∧
        room' = (announceAffected st.room st.affected).1) := by
  unfold routeIq at h
  split at h
  · exact .inl (proxyIq_room h)
  · obtain ⟨answer, ha, h⟩ := Option.bind_eq_some_iff.mp h
    refine .inr ⟨answer, ha, ?_⟩
    cases answer with
    | refused refusedRoom error => exact .inl (bounce_room h)
    | answered st iqType sysData =>
      dsimp only at h
      split at h
      · exact .inl (bounce_room h)
      · cases h
        exact .inr ⟨st, iqType, sysData, rfl, rfl⟩

theorem routeIq_rules (hlow : SentBelow affilOwner room ingress)
    (h : routeIq room ingress acl = some (room', sent)) : SameRules room room' := by
  rcases routeIq_answer h with rfl | ⟨answer, ha, hroom⟩
  · exact .refl _
  · have hanswer : SameRules room answer.room := by
      cases answerIq_low hlow ha with
      | refused | reply => exact .refl room
      | items addr sender reads r hs hrole hloop =>
        rw [room_answerOfItems]
        exact adminLoop_rule (I := fun st => SameRules room st.room)
          (fun _ _ _ _ hI _ hitem => hI.trans (adminItem_rules hitem)) (.refl room) hloop
    rcases hroom with rfl | ⟨st, iqType, sysData, rfl, rfl⟩
    · exact hanswer
    · exact hanswer.trans announceAffected_untouched.toSameRules

theorem lowItems_start (room : Room) : LowItems room { room := room, affected := [] } where
  untouched := .refl room
  unaffected := fun _ _ _ _ => List.not_mem_nil
  affiliations := fun _ p hp => ⟨p, hp, rfl⟩

theorem lowItems_loop {sender : Participant} {reads : List ItemRead} {r : AdminResult}
    (hs : (addr, sender) ∈ room.occupants) (hlow : sender.affiliation < affilAdmin)
    (hloop : adminOutcome room acl addr reads = some r) : LowItems room r.state := by
  refine adminLoop_rule (fun st st' sender' target hI hm hitem => hI.item ?_ hitem)
    (lowItems_start room) hloop
  obtain ⟨q, hq, haff⟩ := hI.affiliations addr sender' hm
  rw [haff, NodeList.val_unique hq hs]
  exact hlow

/-- The announcements leave alone whom the items have left alone. -/
theorem LowItems.announced {st : AdminState} (h : LowItems room st) :
    Untouched (fun _ p => Ranking p) room (announceAffected st.room st.affected).1 where
  toSameRules := h.untouched.toSameRules.trans announceAffected_untouched.toSameRules
  lists := announceAffected_untouched.lists.trans h.untouched.lists
  others := fun b p hp hrank => announceAffected_untouched.others b p
    (h.untouched.others b p hp hrank) (h.unaffected b p hp hrank)

theorem routeIq_ranking (hlow : SentBelow affilAdmin room ingress)
    (h : routeIq room ingress acl = some (room', sent)) :
    Untouched (fun _ p => Ranking p) room room' := by
  have howner : SentBelow affilOwner room ingress :=
    fun addr p hs => Int.lt_trans (hlow addr p hs) (by decide)
  rcases routeIq_answer h with rfl | ⟨answer, ha, hroom⟩
  · exact .refl _
  · cases answerIq_low howner ha with
    | refused error =>
      rcases hroom with rfl | ⟨st, iqType, sysData, hst, -⟩
      · exact .refl _
      · cases hst
    | reply iqType sysData =>
      rcases hroom with rfl | ⟨st, iqType, sysData, hst, rfl⟩
      · exact .refl _
      · cases hst
        exact .refl _
    | items addr sender reads r hs hrole hloop =>
      have hitems := lowItems_loop (findByJid_mem hs) (hlow addr sender hs) hloop
      rcases hroom with rfl | ⟨st, iqType, sysData, hst, rfl⟩
      · rw [room_answerOfItems]
        exact hitems.untouched
      · cases r with
        | refused st' error => cases hst
        | done st' =>
          cases hst
          exact hitems.announced

/-- The sender of a stanza, if it is in the room, is no admin and no moderator. -/
def SentByPlain (room : Room) (ingress : IncomingPacket) : Prop :=
  ∀ addr p, participantsFindByJid room.participants ingress.realFrom = some (addr, p) → ¬ Ranking p

theorem SentByPlain.below (h : SentByPlain room ingress) : SentBelow affilAdmin room ingress :=
  fun addr p hs => Int.not_le.mp fun hadmin => h addr p hs (.inl hadmin)

theorem routeIq_plain (hplain : SentByPlain room ingress)
    (h : routeIq room ingress acl = some (room', sent)) : room' = room := by
  have howner : SentBelow affilOwner room ingress :=
    fun addr p hs => Int.lt_trans (hplain.below addr p hs) (by decide)
  rcases routeIq_answer h with rfl | ⟨answer, ha, hroom⟩
  · rfl
  · cases answerIq_low howner ha with
    | refused error =>
      rcases hroom with rfl | ⟨st, iqType, sysData, hst, -⟩
      · rfl
      · cases hst
    | reply iqType sysData =>
      rcases hroom with rfl | ⟨st, iqType, sysData, hst, rfl⟩
      · rfl
      · cases hst
        rfl
    | items addr sender reads r hs hrole hloop => exact absurd (.inr hrole) (hplain addr sender hs)

/-! ## Stanzas and runs -/

/-- Everything but a query is the sender's own business. -/
theorem roomStep_own (hopen : room.hasFlag mucFlagJustCreated = false)
    (h : roomStep room stanza = some (room', sent)) :
    Untouched (fun b _ => ¬ Sends room stanza.ingress b) room room' ∨
      routeIq room stanza.ingress stanza.acl = some (room', sent) := by
  unfold roomStep roomRoute at h
  split at h
  · exact .inl (routeError_untouched (Option.some.inj h))
  · split at h
    · exact .inl (routeMessage_untouched h)
    · exact .inl (routePresence_untouched hopen h)
    · exact .inr h
    · cases h
      exact .inl (.refl room)

theorem roomStep_rules (hopen : room.hasFlag mucFlagJustCreated = false)
    (hlow : SentBelow affilOwner room stanza.ingress)
    (h : roomStep room stanza = some (room', sent)) : SameRules room room' := by
  rcases roomStep_own hopen h with hown | hquery
  · exact hown.toSameRules
  · exact routeIq_rules hlow hquery

theorem roomStep_ranking (hopen : room.hasFlag mucFlagJustCreated = false)
    (hlow : SentBelow affilAdmin room stanza.ingress)
    (h : roomStep room stanza = some (room', sent)) :
    Untouched (fun b p => Ranking p ∧ ¬ Sends room stanza.ingress b) room room' := by
  rcases roomStep_own hopen h with hown | hquery
  · exact hown.mono fun _ _ _ hp => hp.2
  · exact (routeIq_ranking hlow hquery).mono fun _ _ _ hp => hp.1

theorem roomStep_plain (hopen : room.hasFlag mucFlagJustCreated = false)
    (hplain : SentByPlain room stanza.ingress)
    (h : roomStep room stanza = some (room', sent)) :
    Untouched (fun b _ => ¬ Sends room stanza.ingress b) room room' := by
  rcases roomStep_own hopen h with hown | hquery
  · exact hown
  · rw [routeIq_plain hplain hquery]
    exact .refl room

/--
**Everybody keeps to their rank**, in every run of a room that has been opened: without an owner
nobody changes its rules; without an admin nobody changes the lists or touches an admin or a
moderator; without one of these nobody touches anybody else.
-/
theorem ranks_respected {start : Room} {ok : Room → Stanza → Prop}
    (hopen : start.hasFlag mucFlagJustCreated = false) (h : Reach roomStep ok start room) :
    ((∀ room stanza, ok room stanza → SentBelow affilOwner room stanza.ingress) →
      SameRules start room) ∧
    ((∀ room stanza, ok room stanza → SentBelow affilAdmin room stanza.ingress) →
      room.affiliations = start.affiliations ∧
        ∀ addr p, (addr, p) ∈ start.occupants → Ranking p →
          (∀ room stanza, ok room stanza → ¬ Sends room stanza.ingress addr) →
            (addr, p) ∈ room.occupants) ∧
    ((∀ room stanza, ok room stanza → SentByPlain room stanza.ingress) →
      ∀ addr p, (addr, p) ∈ start.occupants →
        (∀ room stanza, ok room stanza → ¬ Sends room stanza.ingress addr) →
          (addr, p) ∈ room.occupants) := by
  have hopened : ∀ room, Reach roomStep ok start room → room.hasFlag mucFlagJustCreated = false :=
    fun room hr => hr.invariant (I := fun r => r.hasFlag mucFlagJustCreated = false) hopen
      fun _ _ _ _ hopen _ hs => opened_step hopen hs
  refine ⟨fun hok => ?_, fun hok => ⟨?_, fun addr p hp hrank hsilent => ?_⟩,
    fun hok addr p hp hsilent => ?_⟩
  · refine h.invariant_of hopened (.refl start) fun r s r' o hopen hI hs hstep => ?_
    exact hI.trans (roomStep_rules hopen (hok r s hs) hstep)
  · refine h.invariant_of (I := fun r => r.affiliations = start.affiliations) hopened rfl
      fun r s r' o hopen hI hs hstep => ?_
    exact (roomStep_ranking hopen (hok r s hs) hstep).lists.trans hI
  · refine h.invariant_of (I := fun r => (addr, p) ∈ r.occupants) hopened hp
      fun r s r' o hopen hI hs hstep => ?_
    exact (roomStep_ranking hopen (hok r s hs) hstep).others addr p hI ⟨hrank, hsilent r s hs⟩
  · refine h.invariant_of (I := fun r => (addr, p) ∈ r.occupants) hopened hp
      fun r s r' o hopen hI hs hstep => ?_
    exact (roomStep_plain hopen (hok r s hs) hstep).others addr p hI (hsilent r s hs)

/-! ## Somebody without a rank -/

/-- The stanza comes from an occupant without a rank that is not at `addr`. -/
def fromPlain (addr : Nat) (room : Room) (ingress : IncomingPacket) : Bool :=
  (participantsFindByJid room.participants ingress.realFrom).any
    (fun n => n.1 != addr && n.2.affiliation < affilAdmin && n.2.role < roleModerator)

theorem fromPlain_spec (h : fromPlain addr room ingress = true) :
    SentByPlain room ingress ∧ ¬ Sends room ingress addr := by
  obtain ⟨⟨b, p⟩, hs, hplain⟩ := (Option.any_eq_true _ _).mp h
  simp only [Bool.and_eq_true, bne_iff_ne, decide_eq_true_eq] at hplain
  obtain ⟨⟨hne, haffiliation⟩, hrole⟩ := hplain
  constructor
  · intro c q hq hrank
    rw [hs] at hq
    cases hq
    rcases hrank with hadmin | hmoderator
    · exact absurd hadmin (Int.not_le.mpr haffiliation)
    · exact absurd hmoderator (Int.not_le.mpr hrole)
  · rintro ⟨q, hq⟩
    rw [hs] at hq
    cases hq
    exact hne rfl

/-- Two others, from other hosts, come to a room that has just been opened. -/
def guests : List Stanza :=
  stanzasOfTexts openAcl 0 0 ["<presence from='carol@i/pc' to='room@conf/ca'/>",
    "<presence from='dave@j/pc' to='room@conf/da'/>"]

/-- The first guest takes another nick, asks for Alice and the other guest to be kicked, and for
the affiliation of an admin. -/
def guestRun : List Stanza :=
  stanzasOfTexts openAcl 0 0 ["<presence from='carol@i/pc' to='room@conf/caro'/>",
    "<iq type='set' from='carol@i/pc' to='room@conf' id='1'>" ++
      "<query xmlns='http://jabber.org/protocol/muc#admin'>" ++
      "<item nick='al' role='none'/><item nick='da' role='none'/></query></iq>",
    "<iq type='set' from='carol@i/pc' to='room@conf' id='2'>" ++
      "<query xmlns='http://jabber.org/protocol/muc#admin'>" ++
      "<item affiliation='admin' jid='carol@i'/></query></iq>"]

/-- Somebody without a rank sends it, and neither of these two. -/
def fromAnother (room : Room) (stanza : Stanza) : Prop :=
  fromPlain 1 room stanza.ingress = true ∧ fromPlain 3 room stanza.ingress = true

instance (room : Room) (stanza : Stanza) : Decidable (fromAnother room stanza) :=
  inferInstanceAs (Decidable (_ ∧ _))

instance (p : Participant) : Decidable (Ranking p) := inferInstanceAs (Decidable (_ ∨ _))

set_option maxRecDepth 100000 in
/-- The result for a guest: nothing happens to Alice, who owns the room, or to the other guest. -/
theorem ranks_respected_guest : ∃ start room alice dave,
    Machine.run roomStep (roomInit (lit "room")) (openingRun ++ guests) = some start ∧
      guestRun.length = 3 ∧ Machine.runAdmitted roomStep fromAnother start guestRun = some room ∧
      (participantsFindByNick room.participants (some (lit "caro"))).isSome = true ∧
      (1, alice) ∈ start.occupants ∧ Ranking alice ∧ (3, dave) ∈ start.occupants ∧ ¬ Ranking dave ∧
      SameRules start room ∧ room.affiliations = start.affiliations ∧
      (1, alice) ∈ room.occupants ∧ (3, dave) ∈ room.occupants := by
  have hany : (Machine.run roomStep (roomInit (lit "room")) (openingRun ++ guests)).any
      (fun start => (start.hasFlag mucFlagJustCreated == false) && (guestRun.length == 3) &&
        (Machine.runAdmitted roomStep fromAnother start guestRun).any (fun room =>
          (participantsFindByNick room.participants (some (lit "caro"))).isSome) &&
        start.occupants.any (fun n => n.1 == 1 && decide (Ranking n.2)) &&
        start.occupants.any (fun n => n.1 == 3 && !decide (Ranking n.2))) = true := by
    decide +kernel
  obtain ⟨start, hstart, hchecks⟩ := (Option.any_eq_true _ _).mp hany
  simp only [Bool.and_eq_true, beq_iff_eq, List.any_eq_true, Bool.not_eq_true',
    decide_eq_true_eq, decide_eq_false_iff_not] at hchecks
  obtain ⟨⟨⟨⟨hopen, hlen⟩, hrun⟩, ⟨addr₁, alice⟩, halice, rfl, hrank⟩, ⟨addr₃, dave⟩, hdave, rfl,
    hplain⟩ := hchecks
  obtain ⟨room, hroom, hnick⟩ := (Option.any_eq_true _ _).mp hrun
  have hreach : Reach roomStep fromAnother start room := .runAdmitted .start hroom
  obtain ⟨hrules, hlists, hothers⟩ := ranks_respected hopen hreach
  have hbelow : ∀ room stanza, fromAnother room stanza → SentBelow affilAdmin room stanza.ingress :=
    fun _ _ hok => (fromPlain_spec hok.1).1.below
  obtain ⟨haffiliations, hranking⟩ := hlists hbelow
  refine ⟨start, room, alice, dave, hstart, hlen, hroom, hnick, halice, hrank, hdave, hplain,
    hrules ?_, haffiliations, ?_, ?_⟩
  · intro room stanza hok b q hq
    exact Int.lt_trans (hbelow room stanza hok b q hq) (by decide)
  · exact hranking 1 alice halice hrank fun _ _ hok => (fromPlain_spec hok.1).2
  · exact hothers (fun _ _ hok => (fromPlain_spec hok.1).1) 3 dave hdave
      fun _ _ hok => (fromPlain_spec hok.2).2

end Mukite
