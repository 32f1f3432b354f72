import Mukite.Room.Presence

/-!
# The configuration form

`room_config_option_set` and `room_config_parse` of `src/room/room.c`. A form is a sequence of
options; each one that is known changes a single field of the room (`ConfigChange`).
-/

namespace Mukite

/-- `room->flags |= flag` when the value of the option is not zero, `&= ~flag` when it is. -/
def setFlagOption (room : Room) (flag : MucFlags) (mem : Bytes) (value : Span) : Room :=
  room.setFlag flag (btoi mem value != 0)

/-- The limit of occupants an option asks for. -/
def maxUsersOption (mem : Bytes) (value : Span) : Int :=
  let wanted := btoi mem value
  if wanted ≤ 0 ∨ wanted > participantsLimit then participantsLimit else wanted

/-- `room_config_option_set`; undefined when it copies a value of negative size. -/
def roomConfigOptionSet (room : Room) (mem : Bytes) (var value : Span) (acl : Int) :
    Option Room :=
  let flagOption (flag : MucFlags) : Option Room := some (setFlagOption room flag mem value)
  let withinLimit := value.size ≤ userStringOptionLimit
  if var.eqLit mem "muc#roomconfig_roomname" then
    if withinLimit then (value.copy mem).map (fun b => { room with title := some b })
    else some room
  else if var.eqLit mem "muc#roomconfig_roomdesc" then
    if withinLimit then (value.copy mem).map (fun b => { room with description := some b })
    else some room
  else if var.eqLit mem "muc#roomconfig_persistentroom" then
    if acl ≥ aclMucPersist then flagOption mucFlagPersistentroom else some room
  else if var.eqLit mem "muc#roomconfig_publicroom" then flagOption mucFlagPublicroom
  else if var.eqLit mem "public_list" then flagOption mucFlagPublicparticipants
  else if var.eqLit mem "muc#roomconfig_passwordprotectedroom" then
    if withinLimit then flagOption mucFlagPasswordprotectedroom else some room
  else if var.eqLit mem "muc#roomconfig_roomsecret" then
    -- the only text that is copied whatever its size
    (value.copy mem).map (fun b => { room with password := some b })
  else if var.eqLit mem "muc#roomconfig_maxusers" then
    some { room with
      participants := { room.participants with maxSize := maxUsersOption mem value } }
  else if var.eqLit mem "muc#roomconfig_whois" then
    some (room.setFlag mucFlagSemianonymous (value.eqLit mem "moderators"))
  else if var.eqLit mem "muc#roomconfig_membersonly" then flagOption mucFlagMembersonly
  else if var.eqLit mem "muc#roomconfig_moderatedroom" then flagOption mucFlagModeratedroom
  else if var.eqLit mem "members_by_default" then
    some { room with
      defaultRole := if btoi mem value ≠ 0 then roleParticipant else roleVisitor }
  else if var.eqLit mem "muc#roomconfig_changesubject" then flagOption mucFlagChangesubject
  else if var.eqLit mem "allow_private_messages" then flagOption mucFlagAllowpm
  else if var.eqLit mem "allow_query_users" then flagOption mucFlagIqProxy
  else if var.eqLit mem "muc#roomconfig_allowinvites" then flagOption mucFlagInvites
  else if var.eqLit mem "muc#roomconfig_allowvisitorspm" then flagOption mucFlagVisitorspm
  else if var.eqLit mem "muc#roomconfig_allowvisitorpresence" then
    flagOption mucFlagVisitorpresence
  else if var.eqLit mem "muc#roomconfig_mewcat" then flagOption mucFlagMewcat
  else some room

/-- One `<value/>` of a field. -/
def configValue (mem : Bytes) (acl : Int) (var : Span) (room : Room)
    (nodes : XmlNodeTraverser) : Option Room := do
  if !nodes.nodeName.eqLit mem "value" then return room
  let (content, data) ← xmlfsmSkipAttrs mem nodes.node.data
  if !content then return room
  roomConfigOptionSet room mem var
    { data := data, stop := nodes.node.stop - endTagSize "value" } acl

/-- One `<field/>` of a form. -/
def configField (mem : Bytes) (acl : Int) (room : Room) (nodes : XmlNodeTraverser) :
    Option Room := do
  if !nodes.nodeName.eqLit mem "field" then return room
  let (var, data) ← xmlfsmSkiptoAttr mem nodes.node.data "var"
  match var with
  | none => return room
  | some var =>
    let (content, data) ← xmlfsmSkipAttrs mem data
    if !content then return room
    match ← siblingLoop (ρ := Empty) mem
        (fun room nodes => (configValue mem acl var.value room nodes).map .inl)
        { data := data, stop := nodes.node.stop } room with
    | .inl room => return room
    | .inr r => nomatch r

/-- `room_config_parse`; it never returns `FALSE`. -/
def roomConfigParse (room : Room) (mem : Bytes) (data : Span) (acl : Int) : Option Room := do
  match ← siblingLoop (ρ := Empty) mem
      (fun room nodes => (configField mem acl room nodes).map .inl) data room with
  | .inl room => return room
  | .inr r => nomatch r

/-! ## What a form can change -/

/-- The flags that an option switches. -/
def configFlags : List MucFlags :=
  [mucFlagPersistentroom, mucFlagPublicroom, mucFlagPublicparticipants,
    mucFlagPasswordprotectedroom, mucFlagSemianonymous, mucFlagMembersonly,
    mucFlagModeratedroom, mucFlagChangesubject, mucFlagAllowpm, mucFlagIqProxy, mucFlagInvites,
    mucFlagVisitorspm, mucFlagVisitorpresence, mucFlagMewcat]

/-- The changes of a room that one option can make. -/
inductive ConfigChange (room : Room) : Room → Prop
  | unchanged : ConfigChange room room
  | title (b : Bytes) (h : b.length ≤ userStringOptionLimit) :
      ConfigChange room { room with title := some b }
  | description (b : Bytes) (h : b.length ≤ userStringOptionLimit) :
      ConfigChange room { room with description := some b }
  | password (b : Bytes) : ConfigChange room { room with password := some b }
  | flag (flag : MucFlags) (h : flag ∈ configFlags) (on : Bool) :
      ConfigChange room (room.setFlag flag on)
  | maxUsers (n : Int) (hpos : 0 < n) (hle : n ≤ participantsLimit) :
      ConfigChange room { room with participants := { room.participants with maxSize := n } }
  | defaultRole (r : Int) (h : r = roleParticipant ∨ r = roleVisitor) :
      ConfigChange room { room with defaultRole := r }

theorem maxUsersOption_range (mem : Bytes) (value : Span) :
    0 < maxUsersOption mem value ∧ maxUsersOption mem value ≤ participantsLimit := by
  unfold maxUsersOption participantsLimit
  simp only
  split <;> omega

theorem Span.length_of_copy {mem b : Bytes} {s : Span} (h : s.copy mem = some b) :
    (b.length : Int) ≤ s.size := by
  unfold Span.copy at h
  split at h
  · cases h
  · cases h
    unfold Span.bytes Span.size
    rw [List.length_take]
    omega

/-- Whatever an option does, if it does anything, it is one of the changes. -/
def OptionChanges (room : Room) (result : Option Room) : Prop :=
  ∀ room', result = some room' → ConfigChange room room'

namespace OptionChanges

variable {room : Room}

theorem of_change {room' : Room} (h : ConfigChange room room') : OptionChanges room (some room') := by
  intro r hr
  exact Option.some.inj hr ▸ h

theorem none : OptionChanges room (some room) := of_change .unchanged

theorem flag {f : MucFlags} {mem : Bytes} {value : Span} (h : f ∈ configFlags) :
    OptionChanges room (some (setFlagOption room f mem value)) :=
  of_change (.flag f h _)

theorem copy {mem : Bytes} {value : Span} {set : Bytes → Room}
    (h : ∀ b : Bytes, (b.length : Int) ≤ value.size → ConfigChange room (set b)) :
    OptionChanges room ((value.copy mem).map set) := by
  intro r hr
  obtain ⟨b, hb, rfl⟩ := Option.map_eq_some_iff.mp hr
  exact h b (Span.length_of_copy hb)

theorem ite {c : Prop} [Decidable c] {a b : Option Room} (ha : c → OptionChanges room a)
    (hb : OptionChanges room b) : OptionChanges room (if c then a else b) := by
  split
  · next hc => exact ha hc
  · exact hb

end OptionChanges

/-- **An option changes one field, within the bounds of that field.** -/
theorem roomConfigOptionSet_change (room : Room) (mem : Bytes) (var value : Span) (acl : Int) :
    OptionChanges room (roomConfigOptionSet room mem var value acl) := by
  have hflag : ∀ f ∈ configFlags, OptionChanges room (some (setFlagOption room f mem value)) :=
    fun f h => .flag h
  unfold roomConfigOptionSet
  refine .ite (fun _ => .ite (fun hlim => .copy fun b hb => .title b (by omega)) .none) ?_
  refine .ite (fun _ => .ite (fun hlim => .copy fun b hb => .description b (by omega)) .none) ?_
  refine .ite (fun _ => .ite (fun _ => hflag _ (by decide)) .none) ?_
  refine .ite (fun _ => hflag _ (by decide)) ?_
  refine .ite (fun _ => hflag _ (by decide)) ?_
  refine .ite (fun _ => .ite (fun _ => hflag _ (by decide)) .none) ?_
  refine .ite (fun _ => .copy fun b _ => .password b) ?_
  refine .ite (fun _ => .of_change (.maxUsers _ (maxUsersOption_range mem value).1
    (maxUsersOption_range mem value).2)) ?_
  refine .ite (fun _ => .of_change (.flag _ (by decide) _)) ?_
  refine .ite (fun _ => hflag _ (by decide)) ?_
  refine .ite (fun _ => hflag _ (by decide)) ?_
  refine .ite (fun _ => .of_change (.defaultRole _ (by split <;> simp))) ?_
  iterate 7 refine .ite (fun _ => hflag _ (by decide)) ?_
  exact .none

/-- A loop over siblings that never leaves its body keeps what the body keeps. -/
theorem keeps_of_siblingLoop {mem : Bytes} {body : Room → XmlNodeTraverser → Option Room}
    {I : Room → Prop} (hbody : ∀ room nodes room', I room → body room nodes = some room' → I room')
    {buffer : Span} {room room' : Room} (hI : I room)
    (h : siblingLoop (ρ := Empty) mem (fun room nodes => (body room nodes).map .inl) buffer room
      = some (.inl room')) : I room' := by
  refine siblingLoop_rule (Q := fun _ => True) ?_ (fun _ _ _ _ _ => trivial) hI h
  intro s nodes s' hs hb
  obtain ⟨r, hr, he⟩ := Option.map_eq_some_iff.mp hb
  exact Sum.inl.inj he ▸ hbody s nodes r hs hr

section Keeps

variable {I : Room → Prop} {room room' : Room} {mem : Bytes} {acl : Int}

theorem configValue_keeps (hI : ∀ room room', I room → ConfigChange room room' → I room')
    {var : Span} {nodes : XmlNodeTraverser} (h₀ : I room)
    (h : configValue mem acl var room nodes = some room') : I room' := by
  unfold configValue at h
  split at h
  · cases h
    exact h₀
  · obtain ⟨⟨content, data⟩, -, h⟩ := Option.bind_eq_some_iff.mp h
    dsimp only at h
    split at h
    · cases h
      exact h₀
    · exact hI _ _ h₀ (roomConfigOptionSet_change _ _ _ _ _ _ h)

theorem configField_keeps (hI : ∀ room room', I room → ConfigChange room room' → I room')
    {nodes : XmlNodeTraverser} (h₀ : I room)
    (h : configField mem acl room nodes = some room') : I room' := by
  unfold configField at h
  split at h
  · cases h
    exact h₀
  · obtain ⟨⟨var, data⟩, -, h⟩ := Option.bind_eq_some_iff.mp h
    cases var with
    | none =>
      cases h
      exact h₀
    | some var =>
      obtain ⟨⟨content, data⟩, -, h⟩ := Option.bind_eq_some_iff.mp h
      dsimp only at h
      split at h
      · cases h
        exact h₀
      · obtain ⟨x, hx, h⟩ := Option.bind_eq_some_iff.mp h
        cases x with
        | inr r => exact nomatch r
        | inl r =>
          cases h
          exact keeps_of_siblingLoop (fun _ _ _ hs hb => configValue_keeps hI hs hb) h₀ hx

/-- **Whatever every option keeps, a whole form keeps.** -/
theorem roomConfigParse_keeps (hI : ∀ room room', I room → ConfigChange room room' → I room')
    {data : Span} (h₀ : I room) (h : roomConfigParse room mem data acl = some room') :
    I room' := by
  unfold roomConfigParse at h
  obtain ⟨x, hx, h⟩ := Option.bind_eq_some_iff.mp h
  cases x with
  | inr r => exact nomatch r
  | inl r =>
    cases h
    exact keeps_of_siblingLoop (fun _ _ _ hs hb => configField_keeps hI hs hb) h₀ hx

end Keeps

end Mukite
