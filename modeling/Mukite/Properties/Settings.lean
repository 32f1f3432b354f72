import Mukite.Properties.ConfigForm
import Mukite.Properties.IqCases
import Mukite.Properties.PresenceCases
import Mukite.Room.Route

/-!
# The settings of a room

The name of a room, and the texts and limits that its owner sets. No stanza changes them but a
configuration form, and that one by its options only (`roomStep_settings`).
-/

namespace Mukite

/-- The name of a room, and what only a form changes. -/
structure Settings where
  node : Buffer
  title : Buffer
  description : Buffer
  password : Buffer
  defaultRole : Int
  maxOccupants : Int

def Room.settings (room : Room) : Settings where
  node := room.node
  title := room.title
  description := room.description
  password := room.password
  defaultRole := room.defaultRole
  maxOccupants := room.participants.maxSize

namespace Room

@[simp] theorem settings_modify (room : Room) (addr : Nat) (f : Participant → Participant) :
    (room.modify addr f).settings = room.settings := rfl
@[simp] theorem settings_mapVals (room : Room) (f : Participant → Participant) :
    (room.mapVals f).settings = room.settings := rfl
@[simp] theorem settings_setFlag (room : Room) (flag : MucFlags) (on : Bool) :
    (room.setFlag flag on).settings = room.settings := rfl
@[simp] theorem settings_roomJoin (room : Room) (jid : Jid) (nick : Buffer) (affiliation : Int) :
    (roomJoin room jid nick affiliation).1.settings = room.settings := rfl
@[simp] theorem settings_withCreator (room : Room) (jid : Jid) :
    (withCreator room jid).settings = room.settings := rfl
@[simp] theorem settings_renamed (room : Room) (addr : Nat) (nick : Buffer) :
    (renamed room addr nick).settings = room.settings := rfl

@[simp] theorem settings_roomLeave (room : Room) (addr : Nat) :
    (roomLeave room addr).settings = room.settings := by
  unfold roomLeave
  simp only
  split <;> rfl

end Room

/-! ## The form of a stanza -/

/-- One child of an owner's query: the first `<destroy/>` or `<x/>` ends the search. -/
def formNode (mem : Bytes) (nodes : XmlNodeTraverser) : Option (Unit ⊕ Option Span) :=
  if nodes.nodeName.eqLit mem "destroy" then some (.inr none)
  else if nodes.nodeName.eqLit mem "x" then some (.inr (some nodes.node))
  else some (.inl ())

/-- The `<x/>` node of an owner's query, if that is what the query is about. -/
def submittedForm (ingress : IncomingPacket) : Option (Option Span) := do
  match ← findQuery ingress with
  | none => return none
  | some query =>
    if query.xmlns.eqLit ingress.mem xmlnsMucOwner then
      match ← siblingLoop ingress.mem (fun (_ : Unit) nodes => formNode ingress.mem nodes)
          query.node () with
      | .inl _ => return none
      | .inr node => return node
    else return none

/-- The options that a stanza submits. -/
def submittedOptions (ingress : IncomingPacket) : Option (List FormOption) := do
  match ← submittedForm ingress with
  | none => return []
  | some node =>
    let (content, data) ← xmlfsmSkipAttrs ingress.mem node.data
    if content then formOptions ingress.mem { data := data, stop := node.stop } else return []

/-- The settings after a stanza: as they were, or as the options it submits have made them. -/
def SettingsFollow (ingress : IncomingPacket) (room : Room) (settings : Settings) : Prop :=
  settings = room.settings ∨
    ingress.name = .iq ∧ ingress.type = stanzaIqSet ∧ ∃ options level form,
      submittedOptions ingress = some options ∧
        Applied ingress.mem level room form options ∧ settings = form.settings

section

variable {room room' : Room} {ingress : IncomingPacket} {acl : ACLConfig}
  {sent : List BuilderPacket} {mem : Bytes}

/-! ## Queries -/

/-- What the owner's query does to the settings, beside the search for its form. -/
def FormAnswers (room : Room) (mem : Bytes) (answer : IqAnswer) (found : Option Span) : Prop :=
  answer.room.settings = room.settings ∨
    ∃ node level form, found = some node ∧ submitForm room mem node level = some form ∧
      answer.room.settings = form.settings

theorem settings_excludeNonMembers (room : Room) :
    (excludeNonMembers room).room.settings = room.settings := by
  unfold excludeNonMembers
  split <;> rfl

theorem ownerNode_turn {level : Int} (_ _ : Unit) (nodes : XmlNodeTraverser)
    (x : Unit ⊕ IqAnswer) (_ : True) (h : ownerNode room mem level nodes = some x) :
    ∃ y, formNode mem nodes = some y ∧
      Sum.LiftRel (fun _ _ => True) (FormAnswers room mem) x y := by
  unfold ownerNode at h
  unfold formNode
  split at h
  · next hname =>
    cases h
    rw [if_pos hname]
    exact ⟨_, rfl, .inr (.inl rfl)⟩
  · next hname =>
    rw [if_neg hname]
    split at h
    · next hx =>
      rw [if_pos hx]
      obtain ⟨answer, hanswer, rfl⟩ := Option.map_eq_some_iff.mp h
      obtain ⟨form, hform, rfl⟩ := Option.map_eq_some_iff.mp hanswer
      refine ⟨_, rfl, .inr (.inr ⟨nodes.node, level, form, rfl, hform, ?_⟩)⟩
      exact settings_excludeNonMembers form
    · next hx =>
      rw [if_neg hx]
      cases h
      exact ⟨_, rfl, .inl trivial⟩

theorem submittedOptions_of_form {node : Span} {level : Int} {form : Room}
    (hfound : submittedForm ingress = some (some node))
    (h : submitForm room ingress.mem node level = some form) :
    ∃ options, submittedOptions ingress = some options ∧
      Applied ingress.mem level room form options := by
  unfold submitForm at h
  obtain ⟨⟨content, data⟩, hattrs, h⟩ := Option.bind_eq_some_iff.mp h
  unfold submittedOptions
  simp only [hfound, hattrs, Option.bind_eq_bind, Option.bind_some]
  dsimp only at h
  split at h
  · next hcontent =>
    obtain ⟨options, ho, happlied⟩ := roomConfigParse_options h
    exact ⟨options, by rw [if_pos hcontent]; exact ho, happlied⟩
  · next hcontent =>
    cases h
    exact ⟨[], by rw [if_neg hcontent]; rfl, applied_nil⟩

theorem setConfig_settings {query : QueryNode} {sender : Option (Nat × Participant)}
    {answer : IqAnswer} (hname : ingress.name = .iq) (htype : ingress.type = stanzaIqSet)
    (hquery : findQuery ingress = some (some query))
    (hxmlns : query.xmlns.eqLit ingress.mem xmlnsMucOwner = true)
    (h : setConfig room ingress.mem query acl sender = some answer) :
    SettingsFollow ingress room answer.room.settings := by
  unfold setConfig at h
  split at h
  · cases h
    exact .inl rfl
  · split at h
    · cases h
      exact .inl rfl
    · split at h
      · cases h
        exact .inl rfl
      · obtain ⟨x, hx, h⟩ := Option.bind_eq_some_iff.mp h
        obtain ⟨y, hy, hrel⟩ := siblingLoop_sim ownerNode_turn trivial hx
        cases hrel with
        | inl _ =>
          cases h
          exact .inl rfl
        | @inr answer' found hanswer =>
          cases h
          rcases hanswer with hsame | ⟨node, level, form, rfl, hform, hset⟩
          · exact .inl hsame
          · have hfound : submittedForm ingress = some (some node) := by
              refine Option.bind_eq_some_iff.mpr ⟨_, hquery, ?_⟩
              dsimp only
              rw [if_pos hxmlns]
              exact Option.bind_eq_some_iff.mpr ⟨_, hy, rfl⟩
            obtain ⟨options, ho, happlied⟩ := submittedOptions_of_form hfound hform
            exact .inr ⟨hname, htype, options, level, form, ho, happlied, hset⟩

theorem settings_adminItem {st st' : AdminState} {sender : Participant} {target : AdminTarget}
    (h : adminItem acl st sender target = .ok st') : st'.room.settings = st.room.settings := by
  unfold adminItem at h
  split at h
  · cases h
  · split at h
    · unfold roleItem at h
      split at h
      · cases h
      · split at h <;> cases h
        rfl
    · unfold affiliationItem at h
      split at h
      · cases h
      · split at h <;> cases h
        rfl
    · cases h
      rfl

theorem settings_adminLoop {addr : Nat} : ∀ {reads : List ItemRead} {st : AdminState}
    {r : AdminResult}, adminLoop acl addr st reads = some r →
      r.state.room.settings = st.room.settings
  | [], st, r, h => by
    cases h
    rfl
  | .undefined :: _, st, r, h => by cases h
  | .bad :: _, st, r, h => by
    cases h
    rfl
  | .item target :: rest, st, r, h => by
    rw [adminLoop] at h
    split at h
    · cases h
    · split at h
      · cases h
        rfl
      · next st' hst => exact (settings_adminLoop h).trans (settings_adminItem hst)

theorem setAffiliations_settings {query : QueryNode} {sender : Option (Nat × Participant)}
    {answer : IqAnswer} (h : setAffiliations room mem query acl sender = some answer) :
    answer.room.settings = room.settings := by
  unfold setAffiliations at h
  split at h
  · cases h
    rfl
  · split at h
    · cases h
      rfl
    · split at h
      · cases h
        rfl
      · split at h
        · cases h
        · next hloop =>
          cases h
          exact settings_adminLoop hloop
        · next hloop =>
          cases h
          exact settings_adminLoop hloop

theorem getAffiliations_room {query : QueryNode} {sender : Option (Nat × Participant)}
    {answer : IqAnswer} (h : getAffiliations room mem query sender = some answer) :
    answer.room = room := by
  unfold getAffiliations at h
  split at h
  · cases h
    rfl
  · split at h
    · cases h
      rfl
    · split at h
      · cases h
        rfl
      · obtain ⟨next, -, h⟩ := Option.bind_eq_some_iff.mp h
        split at h
        · split at h <;> cases h <;> rfl
        · cases h
          rfl

/-- A get query leaves the room as it is. -/
theorem getIq_room {query : QueryNode} {sender : Option (Nat × Participant)} {answer : IqAnswer}
    (h : getIq room mem query sender = some answer) : answer.room = room := by
  unfold getIq at h
  split at h
  · cases h
    rfl
  · split at h
    · split at h <;> cases h <;> rfl
    · split at h
      · exact getAffiliations_room h
      · split at h
        · cases h
          unfold getConfig
          split
          · rfl
          · split <;> rfl
        · cases h
          rfl

theorem answerIq_settings {answer : IqAnswer} (hname : ingress.name = .iq)
    (h : answerIq room ingress acl = some answer) :
    SettingsFollow ingress room answer.room.settings := by
  unfold answerIq at h
  obtain ⟨found, hquery, h⟩ := Option.bind_eq_some_iff.mp h
  cases found with
  | none =>
    cases h
    exact .inl rfl
  | some query =>
    simp only at h
    split at h
    · exact .inl (congrArg Room.settings (getIq_room h))
    · split at h
      · next htype =>
        unfold setIq at h
        split at h
        · exact .inl (setAffiliations_settings h)
        · split at h
          · next hxmlns => exact setConfig_settings hname htype hquery hxmlns h
          · cases h
            exact .inl rfl
      · cases h
        exact .inl rfl

theorem announceAffected_settings : ∀ {affected : List Nat} {room : Room},
    (announceAffected room affected).1.settings = room.settings
  | [], _ => rfl
  | addr :: rest, room => by
    rw [announceAffected]
    split
    · exact announceAffected_settings
    · refine announceAffected_settings.trans ?_
      unfold announceOne
      dsimp only
      split
      · exact Room.settings_roomLeave _ _
      · rfl

theorem routeIq_settings (hname : ingress.name = .iq)
    (h : routeIq room ingress acl = some (room', sent)) :
    SettingsFollow ingress room room'.settings := by
  unfold routeIq at h
  split at h
  · exact .inl (proxyIq_room h ▸ rfl)
  · obtain ⟨answer, ha, h⟩ := Option.bind_eq_some_iff.mp h
    have hanswer := answerIq_settings hname ha
    cases answer with
    | refused room₁ error => exact bounce_room h ▸ hanswer
    | answered st iqType sysData =>
      simp only at h
      split at h
      · exact bounce_room h ▸ hanswer
      · cases h
        rw [announceAffected_settings]
        exact hanswer

/-! ## The other stanzas -/

theorem publish_settings {sender : Participant}
    (h : publish room ingress sender = some (room', sent)) : room'.settings = room.settings := by
  unfold publish at h
  obtain ⟨inner, -, h⟩ := Option.bind_eq_some_iff.mp h
  obtain ⟨history, -, h⟩ := Option.bind_eq_some_iff.mp h
  cases h
  rfl

theorem routePublicMessage_settings {addr : Nat} {sender : Participant} {limit ticks : Int}
    (h : routePublicMessage room ingress addr sender limit ticks = some (room', sent)) :
    room'.settings = room.settings := by
  unfold routePublicMessage at h
  split at h
  · rw [bounce_room h]
  · split at h
    · rw [bounce_room h]
    · obtain ⟨subject, -, h⟩ := Option.bind_eq_some_iff.mp h
      cases subject with
      | none => exact (publish_settings h).trans (Room.settings_modify _ _ _)
      | some newSubject =>
        simp only at h
        split at h
        · rw [bounce_room h]
          exact Room.settings_modify _ _ _
        · split at h
          · rw [bounce_room h]
            exact Room.settings_modify _ _ _
          · obtain ⟨node, -, h⟩ := Option.bind_eq_some_iff.mp h
            exact (publish_settings h).trans rfl

theorem routeMessage_settings {limit ticks : Int}
    (h : routeMessage room ingress limit ticks = some (room', sent)) :
    room'.settings = room.settings := by
  unfold routeMessage at h
  split at h
  · rw [bounce_room h]
  · split at h
    · exact routePublicMessage_settings h
    · unfold routePrivateMessage at h
      split at h
      · rw [bounce_room h]
      · split at h
        · rw [bounce_room h]
        · split at h
          · rw [bounce_room h]
          · obtain ⟨inner, -, h⟩ := Option.bind_eq_some_iff.mp h
            cases h
            rfl

theorem announceCase_settings {addr : Nat} {p : Participant} {type : Nat} {inner : Buffer}
    {justJoined : Bool} (h : AnnounceCase room addr p type inner justJoined room' sent) :
    room'.settings = room.settings := by
  cases h with
  | left htype =>
    rw [Room.settings_setFlag, Room.settings_roomLeave]
    exact Room.settings_modify _ _ _
  | stayed htype => rfl

theorem routePresence_settings (h : routePresence room ingress acl = some (room', sent)) :
    room'.settings = room.settings := by
  unfold routePresence at h
  obtain ⟨r, hr, h⟩ := Option.bind_eq_some_iff.mp h
  cases presenceSender_case hr with
  | ignored | bounced | turnedAway =>
    cases h
    rfl
  | present addr sender hs =>
    obtain ⟨⟨room₂, sent₂⟩, ha, h⟩ := Option.bind_eq_some_iff.mp h
    cases h
    obtain ⟨inner, -, hc⟩ := presenceAnnounce_case (findByJid_mem hs) ha
    exact announceCase_settings hc
  | renamed addr sender hs htype hres hnick =>
    obtain ⟨⟨room₂, sent₂⟩, ha, h⟩ := Option.bind_eq_some_iff.mp h
    cases h
    have hm : (addr, _) ∈ (renamed room addr (some (bptBytes ingress.proxyTo.resource))).occupants :=
      Room.mem_occupants_modify.mpr ⟨sender, findByJid_mem hs, rfl⟩
    obtain ⟨inner, -, hc⟩ := presenceAnnounce_case hm ha
    exact (announceCase_settings hc).trans (Room.settings_renamed room addr _)
  | joined mucNode affiliation hjid htype hres hnick hadmission =>
    obtain ⟨⟨room₂, sent₂⟩, ha, h⟩ := Option.bind_eq_some_iff.mp h
    cases h
    obtain ⟨inner, -, hc⟩ := presenceAnnounce_case (NodeList.mem_cons.mpr (.inl ⟨rfl, rfl⟩)) ha
    refine (announceCase_settings hc).trans ?_
    rw [Room.settings_roomJoin, Room.settings_withCreator]

theorem routeError_settings : (routeError room ingress).1.settings = room.settings := by
  unfold routeError
  split
  · rfl
  · exact Room.settings_roomLeave _ _

/-- **Only a form changes the settings of a room**, and by its options only. -/
theorem roomStep_settings {stanza : Stanza} (h : roomStep room stanza = some (room', sent)) :
    SettingsFollow stanza.ingress room room'.settings := by
  unfold roomStep roomRoute at h
  split at h
  · obtain rfl : (routeError room stanza.ingress).1 = room' := congrArg Prod.fst (Option.some.inj h)
    exact .inl routeError_settings
  · split at h
    · exact .inl (routeMessage_settings h)
    · exact .inl (routePresence_settings h)
    · next hname => exact routeIq_settings hname h
    · cases h
      exact .inl rfl

end

end Mukite
