import Mukite.Properties.Changes

/-!
# Who is who in a room

No two participants of a room share a nick or a full JID, and the counter of the list counts
them, in every state of every run (`occupants_distinct`). A join is checked against the nicks and
the JIDs in the room, a nick change against the nicks; everything else leaves both alone
(`Distinct.change`).
-/

namespace Mukite

/-! ## The invariant -/

/-- No two participants share a nick or a full JID, and the counter is right. -/
structure Distinct (room : Room) : Prop where
  nicks : room.participants.nodes.UniqueBy (fun p q => bptBytes p.nick = bptBytes q.nick)
  jids : room.participants.nodes.UniqueBy (fun p q => jidCmp p.jid q.jid jidFull = 0)
  counted : room.participants.size = room.participants.nodes.nodes.length

/-- Every part of a JID that is there is not empty. -/
structure NonEmptyParts (jid : Jid) : Prop where
  node : jid.node ≠ some []
  host : jid.host ≠ some []
  resource : jid.resource ≠ some []

instance (jid : Jid) : Decidable (NonEmptyParts jid) :=
  decidable_of_iff (jid.node ≠ some [] ∧ jid.host ≠ some [] ∧ jid.resource ≠ some [])
    ⟨fun h => ⟨h.1, h.2.1, h.2.2⟩, fun h => ⟨h.node, h.host, h.resource⟩⟩

/-- The stanzas the server delivers: parsed, and with a full sender address. -/
structure Delivered (ingress : IncomingPacket) : Prop where
  accepted : Accepted ingress
  sender : NonEmptyParts ingress.realFrom

/-! ## Copies keep the key -/

theorem jidSetPart_eq {part : Buffer} (h : part ≠ some []) : jidSetPart true part = part := by
  unfold jidSetPart
  cases part with
  | none => rfl
  | some b =>
    cases b with
    | nil => exact absurd rfl h
    | cons c cs => rfl

/-- The copy of a JID has the full key of the original. -/
theorem fullKey_jidSet {jid : Jid} (h : NonEmptyParts jid) :
    fullKey (jidSet jid jidFull) = fullKey jid := by
  have hn : (jidSet jid jidFull).node = jid.node := jidSetPart_eq h.node
  have hr : (jidSet jid jidFull).resource = jid.resource := jidSetPart_eq h.resource
  have hh : bptBytes (jidSet jid jidFull).host = bptBytes jid.host := rfl
  simp only [fullKey, bareKey, nodeKey, hostKey, caseKey, bptSize, hn, hr, hh]

theorem nick_joiner {room : Room} {jid : Jid} {nick : Buffer} {affiliation : Int}
    (h : bptSize nick ≤ maxJidPartSize) : (joiner room jid nick affiliation).nick = nick := by
  show (bptSetter none nick maxJidPartSize).1 = nick
  cases nick with
  | none => rfl
  | some b =>
    have hb : b.length ≤ maxJidPartSize := h
    rw [bptSetter_some hb]

/-! ## Nicks -/

/-- No two occupants share a nick. -/
abbrev NoNamesakes (room : Room) : Prop :=
  room.participants.nodes.UniqueBy (fun p q => bptBytes p.nick = bptBytes q.nick)

/-- A nick that nobody has may be taken. -/
theorem NoNamesakes.renamed {room : Room} (h : NoNamesakes room) {addr : Nat} {nick : Buffer}
    (hfree : participantsFindByNick room.participants nick = none) :
    NoNamesakes (renamed room addr (some (bptBytes nick))) := by
  refine NodeList.UniqueBy.modify h ?_ ?_
  · intro x b y hx hy hb hr
    exact findByNick_none hfree hy hr.symm
  · intro x b y hx hy hb hr
    exact findByNick_none hfree hy hr

theorem NoNamesakes.join {room : Room} (h : NoNamesakes room) {jid : Jid} {nick : Buffer}
    {affiliation : Int} (hsize : bptSize nick ≤ maxJidPartSize)
    (hfree : participantsFindByNick room.participants nick = none) :
    NoNamesakes (roomJoin room jid nick affiliation).1 := by
  have hj : (joiner room jid nick affiliation).nick = nick := nick_joiner hsize
  refine NodeList.UniqueBy.cons h ?_ ?_
  · intro b y hy hr
    rw [hj] at hr
    exact findByNick_none hfree hy hr.symm
  · intro b y hy hr
    rw [hj] at hr
    exact findByNick_none hfree hy hr

/-! ## Each small change keeps the invariant -/

/-- What `participant_set_affected` writes is neither a nick nor a JID. -/
theorem names_affected {reasonNode : Buffer} {f : Participant → Option Participant}
    (hf : ∀ p q, f p = some q → q.jid = p.jid ∧ q.nick = p.nick) (p : Participant) :
    (((f p).map (setAffected reasonNode)).getD p).jid = p.jid ∧
      (((f p).map (setAffected reasonNode)).getD p).nick = p.nick := by
  have hset : ∀ q : Participant, (setAffected reasonNode q).jid = q.jid ∧
      (setAffected reasonNode q).nick = q.nick := by
    intro q
    unfold setAffected
    split <;> exact ⟨rfl, rfl⟩
  cases hp : f p with
  | none => exact ⟨rfl, rfl⟩
  | some q => exact ⟨(hset q).1.trans (hf p q hp).1, (hset q).2.trans (hf p q hp).2⟩

namespace Distinct

variable {room room' : Room}

theorem roomInit (node : Bytes) : Distinct (roomInit node) where
  nicks := NodeList.uniqueBy_nil
  jids := NodeList.uniqueBy_nil
  counted := rfl

/-- Changes beside the list. -/
theorem of_nodes (h : Distinct room)
    (hn : room'.participants.nodes = room.participants.nodes)
    (hs : room'.participants.size = room.participants.size) : Distinct room' where
  nicks := by
    rw [hn]
    exact h.nicks
  jids := by
    rw [hn]
    exact h.jids
  counted := by
    rw [hn, hs]
    exact h.counted

theorem counted_modify (h : Distinct room) {addr : Nat} {f : Participant → Participant} :
    (room.modify addr f).participants.size
      = (room.modify addr f).participants.nodes.nodes.length := by
  show room.participants.size = ((room.participants.nodes.modify addr f).nodes.length : Int)
  rw [NodeList.length_modify]
  exact h.counted

theorem modify (h : Distinct room) {addr : Nat} {f : Participant → Participant}
    (hjid : ∀ p, (f p).jid = p.jid) (hnick : ∀ p, (f p).nick = p.nick) :
    Distinct (room.modify addr f) where
  nicks := h.nicks.modify_keeping (fun x y hr => by rwa [hnick] at hr)
    (fun x y hr => by rwa [hnick] at hr)
  jids := h.jids.modify_keeping (fun x y hr => by rwa [hjid] at hr)
    (fun x y hr => by rwa [hjid] at hr)
  counted := h.counted_modify

theorem mapVals (h : Distinct room) {f : Participant → Participant}
    (hjid : ∀ p, (f p).jid = p.jid) (hnick : ∀ p, (f p).nick = p.nick) :
    Distinct (room.mapVals f) where
  nicks := h.nicks.mapVals (fun x y hr => by rwa [hnick, hnick] at hr)
  jids := h.jids.mapVals (fun x y hr => by rwa [hjid, hjid] at hr)
  counted := by
    show room.participants.size = ((room.participants.nodes.mapVals f).nodes.length : Int)
    rw [NodeList.length_mapVals]
    exact h.counted

theorem renamed (h : Distinct room) {addr : Nat} {nick : Buffer}
    (hfree : participantsFindByNick room.participants nick = none) :
    Distinct (renamed room addr (some (bptBytes nick))) where
  nicks := NoNamesakes.renamed h.nicks hfree
  jids := h.jids.modify_keeping (fun _ _ hr => hr) (fun _ _ hr => hr)
  counted := h.counted_modify

theorem leave (h : Distinct room) {addr : Nat} (hm : addr ∈ room.participants.nodes.addrs) :
    Distinct (roomLeave room addr) where
  nicks := by
    rw [participants_roomLeave]
    exact h.nicks.erase
  jids := by
    rw [participants_roomLeave]
    exact h.jids.erase
  counted := by
    rw [participants_roomLeave]
    have hl := NodeList.length_erase hm
    have hc := h.counted
    simp only [ParticipantsList.size_delete, ParticipantsList.nodes_delete]
    omega

theorem join (h : Distinct room) {jid : Jid} {nick : Buffer} {affiliation : Int}
    (hparts : NonEmptyParts jid) (hsize : bptSize nick ≤ maxJidPartSize)
    (hjid : participantsFindByJid room.participants jid = none)
    (hnick : participantsFindByNick room.participants nick = none) :
    Distinct (roomJoin room jid nick affiliation).1 where
  nicks := NoNamesakes.join h.nicks hsize hnick
  jids := by
    have hj : fullKey (joiner room jid nick affiliation).jid = fullKey jid := fullKey_jidSet hparts
    refine h.jids.cons ?_ ?_
    · intro b y hy hr
      have hk := jidCmp_full.mp hr
      exact findByJid_none hjid hy (hk.symm.trans hj)
    · intro b y hy hr
      have hk := jidCmp_full.mp hr
      exact findByJid_none hjid hy (hk.trans hj)
  counted := by
    have hc := h.counted
    show room.participants.size + 1 = ((room.participants.nodes.nodes.length + 1 : Nat) : Int)
    omega

theorem option (h : Distinct room) (hc : ConfigChange room room') : Distinct room' := by
  cases hc <;> exact h.of_nodes rfl rfl

theorem affectEach (st : AdminState) (h : Distinct st.room) {reasonNode : Buffer}
    {f : Participant → Option Participant}
    (hf : ∀ p q, f p = some q → q.jid = p.jid ∧ q.nick = p.nick) :
    Distinct (affectEach st reasonNode f).room :=
  h.mapVals (fun p => (names_affected hf p).1) (fun p => (names_affected hf p).2)

/-- **Every small change keeps the invariant.** -/
theorem change (h : Distinct room) (hc : Change Delivered room room') : Distinct room' := by
  cases hc with
  | adjust addr f hf => exact h.modify (fun p => (hf p).jid) (fun p => (hf p).nick)
  | adjustAll f hf => exact h.mapVals (fun p => (hf p).jid) (fun p => (hf p).nick)
  | subject addr sender node hm hsize => exact h.of_nodes rfl rfl
  | store inner history hs => exact h.of_nodes rfl rfl
  | creator ingress hok => exact h.of_nodes rfl rfl
  | join ingress mucNode acl affiliation hok hjid hres hnick hadmission =>
    have hj : Distinct (withCreator room ingress.realFrom) := h.of_nodes rfl rfl
    have hsize := hok.accepted.parsed.2.resource_le
    exact (hj.join hok.sender hsize hjid hnick).of_nodes rfl rfl
  | rename ingress addr hok hnick => exact h.renamed hnick
  | leave addr hm => exact h.leave hm
  | opened => exact h.of_nodes rfl rfl
  | option room' ho => exact h.option ho
  | affiliate ingress addr sender acl target affiliation affiliations hok hitem hjid hm hadmin
      hadd =>
    refine affectEach _ (h.of_nodes rfl rfl) (fun p q hq => ?_)
    unfold reaffiliate at hq
    simp only at hq
    split at hq <;> cases hq
    exact ⟨rfl, rfl⟩
  | evict =>
    refine affectEach _ (h.of_nodes rfl rfl) (fun p q hq => ?_)
    cases hq
    exact ⟨rfl, rfl⟩

end Distinct

/-! ## The result -/

/-- **No two occupants share a nick or a full JID, and the counter is right, in every run.** -/
theorem occupants_distinct (node : Bytes) (room : Room)
    (h : Machine.Reach roomStep (fun _ stanza => Delivered stanza.ingress) (roomInit node) room) :
    Distinct room :=
  keeps_of_reach (fun _ _ => Distinct.change) (.roomInit node) h

/-- Two occupants join and the first one takes another nick. -/
def renamingRun : List Stanza :=
  stanzasOfTexts openAcl 0 0
    ["<presence from='alice@h/pc' to='room@conf/al'/>",
      "<presence from='bob@h/pc' to='room@conf/bob'><show/></presence>",
      "<presence from='alice@h/pc' to='room@conf/alice'/>"]

set_option maxRecDepth 100000 in
/-- The result at a run with two joins and a nick change. -/
theorem occupants_distinct_renamingRun :
    ∃ room, Machine.run roomStep (roomInit (lit "room")) renamingRun = some room ∧
      room.occupants.map (fun n => n.2.nick) = [some (lit "bob"), some (lit "alice")] ∧
      Distinct room := by
  obtain ⟨room, hrun⟩ : ∃ room,
      Machine.run roomStep (roomInit (lit "room")) renamingRun = some room :=
    Option.isSome_iff_exists.mp (by decide +kernel)
  have hnicks : (Machine.run roomStep (roomInit (lit "room")) renamingRun).map
      (fun room => room.occupants.map (fun n => n.2.nick))
        = some [some (lit "bob"), some (lit "alice")] := by decide +kernel
  have hparts : ∀ stanza ∈ renamingRun, NonEmptyParts stanza.ingress.realFrom := by
    decide +kernel
  rw [hrun, Option.map_some, Option.some.injEq] at hnicks
  refine ⟨room, hrun, hnicks, occupants_distinct (lit "room") room (.run .start ?_ hrun)⟩
  exact fun _ stanza hs => ⟨accepted_of_texts hs, hparts stanza hs⟩

end Mukite
