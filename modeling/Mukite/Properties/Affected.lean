import Mukite.Properties.Announcements
import Mukite.Properties.ConfigForm
import Mukite.Properties.Header
import Mukite.Properties.Occupancy
import Mukite.Properties.RoomStates

/-!
# Whom a request affects

A set query for a room affects the occupants that its items name or give another affiliation,
those whom a form excludes, or everybody (`Affects`). These are the entries of the affected list,
each of them once, because `included` says of every occupant whether it is an entry (`Marked`).

* `affected_announced` — what the answer to such a query does about them.
-/

namespace Mukite

/-! ## Requests -/

/-- An item names an occupant in order to set its role, or changes its affiliation. -/
def Concerns (st st' : AdminState) (target : AdminTarget) (b : Nat) : Prop :=
  (target.role.isSome = true ∧
      ∃ p, participantsFindByNick st.room.participants target.nick = some (b, p)) ∨
    ∃ p q, (b, p) ∈ st.room.occupants ∧ (b, q) ∈ st'.room.occupants ∧
      q.affiliation ≠ p.affiliation

/-- Some item of a request concerns the occupant at `b`. -/
def ConcernedBy (acl : ACLConfig) (addr b : Nat) : AdminState → List ItemRead → Prop
  | st, .item target :: rest =>
    ∃ sender st', st.room.participants.nodes.get? addr = some sender ∧
      adminItem acl st sender target = .ok st' ∧
      (Concerns st st' target b ∨ ConcernedBy acl addr b st' rest)
  | _, _ => False

/-- What a set query for a room asks for. -/
inductive SetRequest
  | items (addr : Nat) (reads : List ItemRead)
  | destroy (resume : Bytes)
  | form (node : Span) (level : Int)

/-- One child of an owner's query. -/
def ownerRequest (mem : Bytes) (level : Int) (nodes : XmlNodeTraverser) :
    Option (Unit ⊕ SetRequest) :=
  if nodes.nodeName.eqLit mem "destroy" then
    some (.inr (.destroy (Span.bytes mem { data := nodes.nodeStart, stop := nodes.node.stop })))
  else if nodes.nodeName.eqLit mem "x" then some (.inr (.form nodes.node level))
  else some (.inl ())

/-- The request in a query of `sender`. -/
def requestOf (acl : ACLConfig) (mem : Bytes) (query : QueryNode) (sender : Nat × Participant) :
    Option SetRequest :=
  if query.xmlns.eqLit mem xmlnsMucAdmin then
    some (.items sender.1 (itemReads mem (rounds mem) query.node))
  else if query.xmlns.eqLit mem xmlnsMucOwner then
    (siblingLoop mem (fun (_ : Unit) nodes => ownerRequest mem (aclRole acl sender.2.jid) nodes)
      query.node ()).bind Sum.getRight?
  else none

/-- The request in a set query for a room. -/
def setRequest (room : Room) (ingress : IncomingPacket) (acl : ACLConfig) : Option SetRequest := do
  let query ← (findQuery ingress).join
  requestOf acl ingress.mem query (← participantsFindByJid room.participants ingress.realFrom)

/-- Whom a request affects. -/
def SetRequest.Affects (room : Room) (mem : Bytes) (acl : ACLConfig) (b : Nat) :
    SetRequest → Prop
  | .items addr reads => ConcernedBy acl addr b { room := room, affected := [] } reads
  | .destroy _ => b ∈ room.participants.nodes.addrs
  | .form node level =>
    ∃ form p, submitForm room mem node level = some form ∧
      form.hasFlag mucFlagMembersonly = true ∧ (b, p) ∈ form.occupants ∧
      p.affiliation < affilMember

/-- Whom a set query for a room affects. -/
def Affects (room : Room) (ingress : IncomingPacket) (acl : ACLConfig) (b : Nat) : Prop :=
  ∃ request, setRequest room ingress acl = some request ∧ request.Affects room ingress.mem acl b

/-! ## The mark of an occupant -/

section Marks

variable {room : Room} {ingress : IncomingPacket} {acl : ACLConfig} {st st' : AdminState}
  {addr b : Nat} {p q : Participant}

/-- The affected list of a request to `room`, and the marks that belong to it. -/
structure Marked (room : Room) (st : AdminState) : Prop where
  nodup : st.affected.Nodup
  included : ∀ b p, (b, p) ∈ st.room.occupants →
    (p.affectedList.included = true ↔ b ∈ st.affected)
  alive : ∀ b ∈ st.affected, b ∈ st.room.participants.nodes.addrs
  others : ∀ b p, (b, p) ∈ st.room.occupants → b ∉ st.affected → (b, p) ∈ room.occupants
  addrs : st.room.participants.nodes.addrs = room.participants.nodes.addrs
  counted : Counted st.room

/-- Nobody is affected, nobody is marked. -/
theorem Marked.start {before : Room} (hcount : Counted room)
    (hclean : ∀ b p, (b, p) ∈ room.occupants → p.affectedList.included = false)
    (ho : room.occupants = before.occupants) : Marked before { room := room, affected := [] } where
  nodup := List.nodup_nil
  included := fun b p hp => by simp [hclean b p hp]
  alive := fun _ hb => absurd hb List.not_mem_nil
  others := fun b p hp _ => ho ▸ hp
  addrs := congrArg (List.map Prod.fst) ho
  counted := hcount

theorem included_setAffected (reasonNode : Buffer) (p : Participant) :
    (setAffected reasonNode p).affectedList.included = true := by
  unfold setAffected
  split
  · assumption
  · rfl

theorem affiliation_setAffected (reasonNode : Buffer) (p : Participant) :
    (setAffected reasonNode p).affiliation = p.affiliation := by
  unfold setAffected
  split <;> rfl

theorem mem_affected_affectOne (h : Marked room st) (hp : (addr, p) ∈ st.room.occupants)
    (reasonNode : Buffer) (f : Participant → Participant) :
    b ∈ (affectOne st (addr, p) reasonNode f).affected ↔ b ∈ st.affected ∨ b = addr := by
  unfold affectOne
  dsimp only
  split
  · next hin =>
    have haddr := (h.included addr p hp).mp hin
    constructor
    · exact .inl
    · rintro (hb | rfl)
      · exact hb
      · exact haddr
  · rw [List.mem_append, List.mem_singleton]

/-- `participant_set_affected` on one occupant. -/
theorem Marked.affectOne (h : Marked room st) (hp : (addr, p) ∈ st.room.occupants)
    (reasonNode : Buffer) (f : Participant → Participant) :
    Marked room (affectOne st (addr, p) reasonNode f) where
  nodup := by
    unfold Mukite.affectOne
    dsimp only
    split
    · exact h.nodup
    · next hout =>
      refine List.nodup_append.mpr ⟨h.nodup, List.nodup_singleton _, ?_⟩
      intro b hb c hc
      rw [List.mem_singleton.mp hc]
      rintro rfl
      exact hout ((h.included b p hp).mpr hb)
  included := by
    intro b q hq
    rw [mem_affected_affectOne h hp]
    obtain ⟨q₀, hq₀, rfl⟩ := Room.mem_occupants_modify.mp hq
    by_cases hb : b = addr
    · rw [if_pos hb, included_setAffected]
      simp [hb]
    · rw [if_neg hb, h.included b q₀ hq₀]
      simp [hb]
  alive := by
    intro b hb
    show b ∈ (st.room.participants.nodes.modify addr _).addrs
    rw [NodeList.addrs_modify]
    rcases (mem_affected_affectOne h hp reasonNode f).mp hb with hb | rfl
    · exact h.alive b hb
    · exact NodeList.mem_addrs_of_mem hp
  others := by
    intro b q hq hb
    rw [mem_affected_affectOne h hp, not_or] at hb
    obtain ⟨q₀, hq₀, rfl⟩ := Room.mem_occupants_modify.mp hq
    rw [if_neg hb.2]
    exact h.others b q₀ hq₀ hb.1
  addrs := by
    show (st.room.participants.nodes.modify addr _).addrs = _
    rw [NodeList.addrs_modify]
    exact h.addrs
  counted := h.counted.modify addr _

/-- What a loop over the occupants makes of one of them. -/
theorem mem_occupants_affectEach {reasonNode : Buffer} {f : Participant → Option Participant} :
    (b, q) ∈ (affectEach st reasonNode f).room.occupants ↔
      ∃ p, (b, p) ∈ st.room.occupants ∧ q = ((f p).map (setAffected reasonNode)).getD p :=
  Room.mem_occupants_mapVals

theorem mem_affected_affectEach (h : Marked room st) (hp : (b, p) ∈ st.room.occupants)
    (reasonNode : Buffer) (f : Participant → Option Participant) :
    b ∈ (affectEach st reasonNode f).affected ↔ b ∈ st.affected ∨ (f p).isSome = true := by
  unfold affectEach
  rw [List.mem_append]
  constructor
  · rintro (hb | hb)
    · exact .inl hb
    · obtain ⟨⟨c, q⟩, hm, rfl⟩ := List.mem_map.mp hb
      obtain ⟨hq, hcond⟩ := List.mem_filter.mp hm
      obtain rfl := NodeList.val_unique hq hp
      simp only [Bool.and_eq_true] at hcond
      exact .inr hcond.1
  · rintro (hb | hsome)
    · exact .inl hb
    · by_cases hb : b ∈ st.affected
      · exact .inl hb
      · have hout : p.affectedList.included = false := by
          rw [← Bool.not_eq_true, h.included b p hp]
          exact hb
        exact .inr (List.mem_map.mpr ⟨(b, p), List.mem_filter.mpr ⟨hp, by simp [hsome, hout]⟩, rfl⟩)

theorem addrs_of_mem_affectEach (h : Marked room st) {reasonNode : Buffer}
    {f : Participant → Option Participant} (hb : b ∈ (affectEach st reasonNode f).affected) :
    b ∈ st.room.participants.nodes.addrs := by
  unfold affectEach at hb
  rcases List.mem_append.mp hb with hb | hb
  · exact h.alive b hb
  · obtain ⟨⟨c, q⟩, hm, rfl⟩ := List.mem_map.mp hb
    exact NodeList.mem_addrs_of_mem (List.mem_filter.mp hm).1

/-- A loop over the occupants that calls `participant_set_affected` on some of them. -/
theorem Marked.affectEach (h : Marked room st) (reasonNode : Buffer)
    (f : Participant → Option Participant) : Marked room (affectEach st reasonNode f) where
  nodup := by
    refine List.nodup_append.mpr ⟨h.nodup, ?_, ?_⟩
    · exact (List.filter_sublist.map Prod.fst).nodup st.room.participants.nodes.distinct
    · intro b hb c hc he
      subst he
      obtain ⟨⟨d, q⟩, hm, rfl⟩ := List.mem_map.mp hc
      obtain ⟨hq, hcond⟩ := List.mem_filter.mp hm
      have hin := (h.included d q hq).mpr hb
      simp [hin] at hcond
  included := by
    intro b q hq
    obtain ⟨p, hp, rfl⟩ := mem_occupants_affectEach.mp hq
    rw [mem_affected_affectEach h hp]
    cases hf : f p with
    | none => simpa using h.included b p hp
    | some r => simp [included_setAffected]
  alive := by
    intro b hb
    show b ∈ (st.room.participants.nodes.mapVals _).addrs
    rw [NodeList.addrs_mapVals]
    exact addrs_of_mem_affectEach h hb
  others := by
    intro b q hq hb
    obtain ⟨p, hp, rfl⟩ := mem_occupants_affectEach.mp hq
    rw [mem_affected_affectEach h hp, not_or] at hb
    have hnone : f p = none := by simpa using hb.2
    rw [hnone]
    exact h.others b p hp hb.1
  addrs := by
    show (st.room.participants.nodes.mapVals _).addrs = _
    rw [NodeList.addrs_mapVals]
    exact h.addrs
  counted := h.counted.mapVals _

end Marks

/-! ## Items -/

section Items

variable {room : Room} {acl : ACLConfig} {st st' : AdminState} {sender : Participant}
  {target : AdminTarget} {addr b : Nat}

theorem reaffiliate_isSome {lists : Affiliations} {reasonNode : Buffer} {p : Participant} :
    (reaffiliate lists acl p).isSome = true ↔
      (((reaffiliate lists acl p).map (setAffected reasonNode)).getD p).affiliation
        ≠ p.affiliation := by
  unfold reaffiliate
  dsimp only
  by_cases hsame : affiliationssGetByJid lists acl p.jid = p.affiliation
  · simp [hsame]
  · simp [hsame, affiliation_setAffected]

/-- An item with a role. -/
theorem roleItem_marked {role : Int} (h : Marked room st) (hrole : target.role = some role)
    (hr : roleItem st sender role target = .ok st') :
    Marked room st' ∧ ∀ b, b ∈ st'.affected ↔ b ∈ st.affected ∨ Concerns st st' target b := by
  unfold roleItem at hr
  split at hr
  · cases hr
  · next a receiver hnick =>
    split at hr
    · cases hr
    · cases hr
      have hm : (a, receiver) ∈ st.room.occupants := (findByNick_spec hnick).1
      refine ⟨h.affectOne hm _ _, fun b => ?_⟩
      rw [mem_affected_affectOne h hm]
      refine or_congr_right ⟨?_, ?_⟩
      · rintro rfl
        exact .inl ⟨by rw [hrole]; rfl, receiver, hnick⟩
      · rintro (⟨-, p, hp⟩ | ⟨p, q, hp, hq, hne⟩)
        · rw [hnick] at hp
          exact (congrArg Prod.fst (Option.some.inj hp)).symm
        · -- a role is set, so no affiliation changes
          obtain ⟨p', hp', rfl⟩ := Room.mem_occupants_modify.mp hq
          obtain rfl := NodeList.val_unique hp hp'
          split at hne
          · exact absurd (affiliation_setAffected _ _) hne
          · exact absurd rfl hne

/-- An item with an affiliation. -/
theorem affiliationItem_marked {affiliation : Affil} (h : Marked room st)
    (hrole : target.role = none)
    (ha : affiliationItem st sender acl affiliation target = .ok st') :
    Marked room st' ∧ ∀ b, b ∈ st'.affected ↔ b ∈ st.affected ∨ Concerns st st' target b := by
  unfold affiliationItem at ha
  split at ha
  · cases ha
  · split at ha
    · cases ha
    · next lists _ =>
      cases ha
      have hfiled : Marked room { st with room := { st.room with affiliations := lists } } :=
        ⟨h.nodup, h.included, h.alive, h.others, h.addrs, h.counted⟩
      have hafter := hfiled.affectEach target.reasonNode (reaffiliate lists acl)
      refine ⟨hafter, fun b => ⟨fun hb => ?_, ?_⟩⟩
      · obtain ⟨p, hp⟩ := mem_addrs_iff.mp (addrs_of_mem_affectEach hfiled hb)
        refine ((mem_affected_affectEach hfiled hp _ _).mp hb).imp_right fun hsome => .inr ?_
        exact ⟨p, _, hp, mem_occupants_affectEach.mpr ⟨p, hp, rfl⟩, reaffiliate_isSome.mp hsome⟩
      · rintro (hb | ⟨hsome, -⟩ | ⟨p, q, hp, hq, hne⟩)
        · exact List.mem_append_left _ hb
        · rw [hrole] at hsome
          cases hsome
        · obtain ⟨p', hp', rfl⟩ := mem_occupants_affectEach.mp hq
          obtain rfl := NodeList.val_unique hp hp'
          exact (mem_affected_affectEach hfiled hp _ _).mpr (.inr (reaffiliate_isSome.mpr hne))

/-- An item puts on the list whom it concerns. -/
theorem adminItem_marked (h : Marked room st) (hi : adminItem acl st sender target = .ok st') :
    Marked room st' ∧ ∀ b, b ∈ st'.affected ↔ b ∈ st.affected ∨ Concerns st st' target b := by
  unfold adminItem at hi
  split at hi
  · cases hi
  · next hgood =>
    cases hrole : target.role with
    | some role =>
      rw [hrole] at hi
      exact roleItem_marked h hrole hi
    | none =>
      cases haff : target.affiliation with
      | some affiliation =>
        rw [hrole, haff] at hi
        exact affiliationItem_marked h hrole hi
      | none => simp [badItem, hrole, haff] at hgood

/-- **The loop over the items puts on the list whom one of them concerns.** -/
theorem adminLoop_marked : ∀ {reads : List ItemRead} {st : AdminState}, Marked room st →
    adminLoop acl addr st reads = some (.done st') →
    Marked room st' ∧ ∀ b, b ∈ st'.affected ↔ b ∈ st.affected ∨ ConcernedBy acl addr b st reads
  | [], st, h, hl => by
    cases hl
    exact ⟨h, fun b => by simp [ConcernedBy]⟩
  | .undefined :: _, st, h, hl => by cases hl
  | .bad :: _, st, h, hl => by cases hl
  | .item target :: rest, st, h, hl => by
    rw [adminLoop] at hl
    split at hl
    · cases hl
    · next sender hs =>
      split at hl
      · cases hl
      · next st₁ hitem =>
        obtain ⟨h₁, hmem₁⟩ := adminItem_marked h hitem
        obtain ⟨h', hmem'⟩ := adminLoop_marked h₁ hl
        refine ⟨h', fun b => ?_⟩
        rw [hmem' b, hmem₁ b, or_assoc]
        refine or_congr_right ⟨fun hb => ⟨sender, st₁, hs, hitem, hb⟩, ?_⟩
        rintro ⟨sender', st₁', hs', hitem', hb⟩
        rw [hs] at hs'
        cases hs'
        rw [hitem] at hitem'
        cases hitem'
        exact hb

end Items

/-! ## Answers -/

section Answers

variable {room form : Room} {ingress : IncomingPacket} {acl : ACLConfig} {st : AdminState}
  {iqType : Nat} {sysData : SysData}

/-- Everybody is affected by the destruction of the room. -/
theorem destroyRoom_marked (hcount : Counted room)
    (hclean : ∀ b p, (b, p) ∈ room.occupants → p.affectedList.included = false) {resume : Bytes}
    (hd : destroyRoom room resume = .answered st iqType sysData) :
    Marked room st ∧ ∀ b, b ∈ st.affected ↔ b ∈ room.participants.nodes.addrs := by
  cases hd
  have hstart : Marked room { room := room.setFlag mucFlagDestroyed true, affected := [] } :=
    .start hcount hclean rfl
  refine ⟨hstart.affectEach _ _, fun b => ⟨addrs_of_mem_affectEach hstart, fun hb => ?_⟩⟩
  obtain ⟨p, hp⟩ := mem_addrs_iff.mp hb
  exact (mem_affected_affectEach hstart hp _ _).mpr (.inr rfl)

/-- Those who are no members are affected when the room is for members only. -/
theorem excludeNonMembers_marked (hstart : Marked room { room := form, affected := [] }) :
    Marked room (excludeNonMembers form) ∧ ∀ b, b ∈ (excludeNonMembers form).affected ↔
      form.hasFlag mucFlagMembersonly = true ∧
        ∃ p, (b, p) ∈ form.occupants ∧ p.affiliation < affilMember := by
  unfold excludeNonMembers
  split
  · next hmem =>
    have hsome : ∀ p, (excludeNonMember p).isSome = true ↔ p.affiliation < affilMember := by
      intro p
      unfold excludeNonMember
      split <;> simp [*]
    refine ⟨hstart.affectEach _ _, fun b => ⟨fun hb => ⟨hmem, ?_⟩, ?_⟩⟩
    · obtain ⟨p, hp⟩ := mem_addrs_iff.mp (addrs_of_mem_affectEach hstart hb)
      have hb' := (mem_affected_affectEach hstart hp _ _).mp hb
      exact ⟨p, hp, (hsome p).mp (hb'.resolve_left List.not_mem_nil)⟩
    · rintro ⟨-, p, hp, hlow⟩
      exact (mem_affected_affectEach hstart hp _ _).mpr (.inr ((hsome p).mpr hlow))
  · next hmem => exact ⟨hstart, fun b => by simp [hmem]⟩

/-- A muc#admin request that is answered with a result. -/
theorem setAffiliations_marked (hcount : Counted room)
    (hclean : ∀ b p, (b, p) ∈ room.occupants → p.affectedList.included = false)
    {mem : Bytes} {query : QueryNode} {sender : Option (Nat × Participant)}
    (hxmlns : query.xmlns.eqLit mem xmlnsMucAdmin = true)
    (h : setAffiliations room mem query acl sender = some (.answered st iqType sysData)) :
    Marked room st ∧ ∃ request, sender.bind (requestOf acl mem query) = some request ∧
      ∀ b, b ∈ st.affected ↔ request.Affects room mem acl b := by
  unfold setAffiliations at h
  split at h
  · cases h
  · split at h
    · cases h
    · next addr sender =>
      split at h
      · cases h
      · split at h
        · cases h
        · cases h
        · next st₁ hloop =>
          cases h
          obtain ⟨hmarked, hmem⟩ := adminLoop_marked (.start hcount hclean rfl) hloop
          refine ⟨hmarked, _, if_pos hxmlns, fun b => ?_⟩
          rw [hmem b]
          simp [SetRequest.Affects]

/-- What a child of the owner's query asks for, beside the answer to it. -/
theorem ownerNode_request {mem : Bytes} {level : Int} (_ _ : Unit) (nodes : XmlNodeTraverser)
    (x : Unit ⊕ IqAnswer) (_ : True) (h : ownerNode room mem level nodes = some x) :
    ∃ y, ownerRequest mem level nodes = some y ∧
      Sum.LiftRel (fun _ _ => True)
        (fun answer request =>
          (∃ resume, request = .destroy resume ∧ answer = destroyRoom room resume) ∨
          ∃ node form, request = .form node level ∧ submitForm room mem node level = some form ∧
            answer = .answered (excludeNonMembers form) buildIqEmpty .zero) x y := by
  unfold ownerNode at h
  unfold ownerRequest
  by_cases hdestroy : nodes.nodeName.eqLit mem "destroy" = true
  · rw [if_pos hdestroy] at h ⊢
    cases h
    exact ⟨_, rfl, .inr (.inl ⟨_, rfl, rfl⟩)⟩
  · rw [if_neg hdestroy] at h ⊢
    by_cases hx : nodes.nodeName.eqLit mem "x" = true
    · rw [if_pos hx] at h ⊢
      obtain ⟨answer, hanswer, rfl⟩ := Option.map_eq_some_iff.mp h
      obtain ⟨form, hform, rfl⟩ := Option.map_eq_some_iff.mp hanswer
      exact ⟨_, rfl, .inr (.inr ⟨nodes.node, form, rfl, hform, rfl⟩)⟩
    · rw [if_neg hx] at h ⊢
      cases h
      exact ⟨_, rfl, .inl trivial⟩

/-- A muc#owner request that is answered with a result. -/
theorem setConfig_marked (hcount : Counted room)
    (hclean : ∀ b p, (b, p) ∈ room.occupants → p.affectedList.included = false)
    {mem : Bytes} {query : QueryNode} {sender : Option (Nat × Participant)}
    (hxmlns : query.xmlns.eqLit mem xmlnsMucOwner = true)
    (h : setConfig room mem query acl sender = some (.answered st iqType sysData))
    (hknown : iqType ≠ 0) :
    Marked room st ∧ ∃ request, sender.bind (requestOf acl mem query) = some request ∧
      ∀ b, b ∈ st.affected ↔ request.Affects room mem acl b := by
  unfold setConfig at h
  split at h
  · cases h
  · split at h
    · cases h
    · next addr sender =>
      split at h
      · cases h
      · obtain ⟨x, hx, h⟩ := Option.bind_eq_some_iff.mp h
        obtain ⟨y, hy, hrel⟩ := siblingLoop_sim ownerNode_request trivial hx
        cases hrel with
        | inl _ =>
          have hzero : IqAnswer.unknown room = .answered st iqType sysData := Option.some.inj h
          injection hzero with _ htype _
          exact absurd htype.symm hknown
        | @inr answer request hcase =>
          cases h
          have hnotadmin : ¬ query.xmlns.eqLit mem xmlnsMucAdmin = true := by
            intro hadmin
            have hboth : lit xmlnsMucOwner = lit xmlnsMucAdmin :=
              (bytes_of_eqLit hxmlns).symm.trans (bytes_of_eqLit hadmin)
            exact absurd hboth (by decide)
          have hrequest : requestOf acl mem query (addr, sender) = some request := by
            unfold requestOf
            rw [if_neg hnotadmin, if_pos hxmlns, hy]
            rfl
          -- the child that is read destroys the room, or is a form
          rcases hcase with ⟨resume, rfl, hd⟩ | ⟨node, form, rfl, hform, he⟩
          · obtain ⟨hmarked, hmem⟩ := destroyRoom_marked hcount hclean hd.symm
            exact ⟨hmarked, _, hrequest, hmem⟩
          · obtain ⟨hocc, hsize⟩ := submitForm_occupants hform
            have hstart : Marked room { room := form, affected := [] } :=
              .start (hcount.of_length (congrArg List.length hocc) hsize)
                (fun b p hp => hclean b p (hocc ▸ hp)) hocc
            obtain ⟨hmarked, hmem⟩ := excludeNonMembers_marked hstart
            cases he
            refine ⟨hmarked, _, hrequest, fun b => (hmem b).trans ?_⟩
            constructor
            · rintro ⟨hflag, p, hp, hlow⟩
              exact ⟨form, p, hform, hflag, hp, hlow⟩
            · rintro ⟨form', p, hform', hflag, hp, hlow⟩
              rw [hform] at hform'
              cases hform'
              exact ⟨hflag, p, hp, hlow⟩

/-- **The affected list of a request holds whom it affects**, each of them once. -/
theorem answerIq_marked (hcount : Counted room)
    (hclean : ∀ b p, (b, p) ∈ room.occupants → p.affectedList.included = false)
    (hset : ingress.type = stanzaIqSet)
    (h : answerIq room ingress acl = some (.answered st iqType sysData)) (hknown : iqType ≠ 0) :
    Marked room st ∧ ∀ b, b ∈ st.affected ↔ Affects room ingress acl b := by
  unfold answerIq at h
  obtain ⟨found, hquery, h⟩ := Option.bind_eq_some_iff.mp h
  cases found with
  | none => cases h
  | some query =>
    simp only [hset, show ¬ stanzaIqSet = stanzaIqGet by decide, if_false, if_true] at h
    have hone : Marked room st ∧ ∃ request, (participantsFindByJid room.participants
        ingress.realFrom).bind (requestOf acl ingress.mem query) = some request ∧
          ∀ b, b ∈ st.affected ↔ request.Affects room ingress.mem acl b := by
      unfold setIq at h
      split at h
      · next hxmlns => exact setAffiliations_marked hcount hclean hxmlns h
      · split at h
        · next hxmlns => exact setConfig_marked hcount hclean hxmlns h hknown
        · cases h
          exact absurd rfl hknown
    obtain ⟨hmarked, request, hrequest, hmem⟩ := hone
    have hsome : setRequest room ingress acl = some request := by
      unfold setRequest
      rw [hquery]
      exact hrequest
    refine ⟨hmarked, fun b => (hmem b).trans ⟨fun hb => ⟨request, hsome, hb⟩, ?_⟩⟩
    rintro ⟨request', hsome', hb⟩
    rw [hsome] at hsome'
    cases hsome'
    exact hb

end Answers

/-! ## After the answer -/

/-- The room after the occupants affected by a request to `room` have been announced. -/
structure Settles (room : Room) (st : AdminState) (room' : Room) : Prop where
  /-- exactly those affected whose final role is none are gone -/
  removed : ∀ b ∈ room.participants.nodes.addrs, (b ∉ room'.participants.nodes.addrs ↔
    b ∈ st.affected ∧ ∃ p, (b, p) ∈ st.room.occupants ∧ Removed st.room p)
  /-- the banned and those whom a members-only room excludes among them -/
  excluded : ∀ b p, (b, p) ∈ st.room.occupants → b ∈ st.affected →
    p.affiliation = affilOutcast ∨
      (st.room.hasFlag mucFlagMembersonly = true ∧ p.affiliation < affilMember) →
    b ∉ room'.participants.nodes.addrs
  /-- the others have the role and the affiliation with which they have been announced -/
  stayed : ∀ b p, (b, p) ∈ room'.occupants → b ∈ st.affected → ∃ q, (b, q) ∈ st.room.occupants ∧
    p.role = (announced st.room q).role ∧ p.affiliation = (announced st.room q).affiliation ∧
    p.affectedList.reasonNode = none
  /-- whoever is not affected is as before the request -/
  spared : ∀ b p, (b, p) ∈ room'.occupants → b ∉ st.affected → (b, p) ∈ room.occupants
  /-- nobody is marked any more, and nobody has a reason -/
  unmarked : ∀ b p, (b, p) ∈ room'.occupants →
    p.affectedList.included = false ∧ p.affectedList.reasonNode = none

section Outcome

variable {room room' : Room} {ingress : IncomingPacket} {acl : ACLConfig} {st : AdminState}
  {iqType : Nat} {sysData : SysData} {p : Participant}

theorem removed_of_excluded (h : p.affiliation = affilOutcast ∨
    (room.hasFlag mucFlagMembersonly = true ∧ p.affiliation < affilMember)) : Removed room p := by
  unfold Removed
  by_contra hrole
  obtain ⟨hout, hmem⟩ := affectedOutcome_keeps hrole
  rcases h with h | ⟨hflag, hlow⟩
  · exact hout h
  · have := hmem hflag
    omega

theorem Marked.settles (h : Marked room st) (hreasons : NoReasons room)
    (ho : room'.occupants = occupantsAfter st.room st.affected) : Settles room st room' := by
  have hgone : ∀ b ∈ room.participants.nodes.addrs, (b ∉ room'.participants.nodes.addrs ↔
      b ∈ st.affected ∧ ∃ p, (b, p) ∈ st.room.occupants ∧ Removed st.room p) := by
    intro b hb
    rw [← h.addrs, mem_addrs_iff] at hb
    obtain ⟨p, hp⟩ := hb
    have hiff : b ∈ room'.participants.nodes.addrs ↔ ¬ (b ∈ st.affected ∧ Removed st.room p) := by
      rw [mem_addrs_iff, ho]
      constructor
      · rintro ⟨q, hq⟩ ⟨hin, hremoved⟩
        obtain ⟨p', hp', hcase⟩ := mem_occupantsAfter.mp hq
        rw [if_pos hin, NodeList.val_unique hp' hp] at hcase
        exact hcase.1 hremoved
      · intro hnot
        by_cases hin : b ∈ st.affected
        · refine ⟨clearReason (announced st.room p), mem_occupantsAfter.mpr ⟨p, hp, ?_⟩⟩
          rw [if_pos hin]
          exact ⟨fun hremoved => hnot ⟨hin, hremoved⟩, rfl⟩
        · exact ⟨p, (mem_occupantsAfter_of_notMem hin).mpr hp⟩
    rw [hiff, not_not]
    refine and_congr_right fun _ => ⟨fun hremoved => ⟨p, hp, hremoved⟩, ?_⟩
    rintro ⟨q, hq, hremoved⟩
    exact NodeList.val_unique hq hp ▸ hremoved
  -- who goes, who stays announced, who is not concerned, and that nobody stays marked
  refine ⟨hgone, fun b p hp hin hout => ?_, fun b p hp hin => ?_, fun b p hp hin => ?_,
    fun b p hp => ?_⟩
  · refine (hgone b ?_).mpr ⟨hin, p, hp, removed_of_excluded hout⟩
    rw [← h.addrs]
    exact h.alive b hin
  · rw [ho] at hp
    obtain ⟨q, hq, hcase⟩ := mem_occupantsAfter.mp hp
    rw [if_pos hin] at hcase
    obtain ⟨-, rfl⟩ := hcase
    exact ⟨q, hq, rfl, rfl, rfl⟩
  · rw [ho, mem_occupantsAfter_of_notMem hin] at hp
    exact h.others b p hp hin
  · rw [ho] at hp
    obtain ⟨q, hq, hcase⟩ := mem_occupantsAfter.mp hp
    split at hcase
    · next hin =>
      obtain ⟨-, rfl⟩ := hcase
      exact ⟨rfl, rfl⟩
    · next hin =>
      subst hcase
      refine ⟨?_, hreasons b p (h.others b p hq hin)⟩
      rw [← Bool.not_eq_true, h.included b p hq]
      exact hin

end Outcome

/-! ## Requests of the owner -/

/-- What `route_iq` answers a query with, if it is a result. -/
def IqAnswer.result : IqAnswer → Option (AdminState × Nat × SysData)
  | .refused _ _ => none
  | .answered st iqType sysData => some (st, iqType, sysData)

theorem IqAnswer.of_result {answer : IqAnswer} {st : AdminState} {iqType : Nat}
    {sysData : SysData} (h : answer.result = some (st, iqType, sysData)) :
    answer = .answered st iqType sysData := by
  cases answer with
  | refused room error => cases h
  | answered st' iqType' sysData' =>
    cases h
    rfl

/-- The answer to a query in a room. -/
def resultOf (room : Room) (query : String) :
    Option (IncomingPacket × AdminState × Nat × SysData) := do
  let ingress ← received query
  let answer ← answerIq room ingress openAcl
  return (ingress, ← answer.result)

theorem resultOf_spec {query : String} {room : Room} {ingress : IncomingPacket} {st : AdminState}
    {iqType : Nat} {sysData : SysData}
    (h : resultOf room query = some (ingress, st, iqType, sysData)) :
    answerIq room ingress openAcl = some (.answered st iqType sysData) := by
  unfold resultOf at h
  obtain ⟨ingress₁, -, h⟩ := Option.bind_eq_some_iff.mp h
  obtain ⟨answer, hanswer, h⟩ := Option.bind_eq_some_iff.mp h
  obtain ⟨result, hresult, h⟩ := Option.bind_eq_some_iff.mp h
  cases h
  rw [hanswer, IqAnswer.of_result hresult]

/-- Takes the voice of the occupant and gives the reason for it. -/
def muteBob : String :=
  adminSet "alice@h" "<item nick='bob' role='visitor'><reason>hush</reason></item>"

/-- Somebody is muted after the joins, and nothing is left where his reason was. -/
def mutedRun : List (Stanza × Leftover) :=
  (stanzasOfTexts openAcl 0 0 (joins ++ [muteBob])).map (fun stanza => (stanza, fun _ => []))

/-- Takes the voice of the occupant and removes him with the next item. -/
def kickTwice : String :=
  adminSet "alice@h" ("<item nick='bob' role='participant'/>" ++
    "<item nick='bob' role='none'><reason>spam</reason></item>")

end Mukite
