import Mukite.Room.Presence

/-!
# Admin requests

The items of a muc#admin query in `src/room/room.c`: how they are read
(`next_muc_admin_item`) and what the loop of `route_iq` does with each of them.

Reading the items looks at the stanza only, and the loop does not change the stanza. So the loop
is a recursion over what the reads deliver (`ItemRead`), and the read that ends it badly is the
last of them.
-/

namespace Mukite

/-- `role_by_name`, `none` for `ROLE_UNCHANGED`. -/
def roleByName (name : Bytes) : Option Int :=
  (roleNames.find? (fun role => name == lit role.2)).map Prod.fst

/-- `MucAdminItem`, as an item of a query fills it. `none` is `..._UNCHANGED`. -/
structure AdminTarget where
  affiliation : Option Affil := none
  role : Option Int := none
  jid : Jid := jidInit
  nick : Buffer := none
  reasonNode : Buffer := none
deriving DecidableEq, Repr

/-! ## Reading the items -/

/-- One attribute of an item; `inr` is the result -1. -/
def itemAttr (mem : Bytes) (target : AdminTarget) (attr : XmlAttr) : AdminTarget ⊕ Unit :=
  let value := attr.value.bytes mem
  if attr.name.eqLit mem "affiliation" then
    match affiliationByName value with
    | none => .inr ()
    | some affiliation => .inl { target with affiliation := some affiliation }
  else if attr.name.eqLit mem "role" then
    match roleByName value with
    | none => .inr ()
    | some role => .inl { target with role := some role }
  else if attr.name.eqLit mem "jid" then
    match jidStruct value with
    | none => .inr ()
    | some jid => .inl { target with jid := jid }
  else if attr.name.eqLit mem "nick" then .inl { target with nick := some value }
  else .inl target

/-- The results of `next_muc_admin_item`. -/
inductive NextItem
  /-- `TRUE`, and what is left of the query -/
  | item (target : AdminTarget) (rest : Span)
  /-- -1 -/
  | bad
  /-- `FALSE` -/
  | finished

/-- One child of the query; everything but an item is passed over. -/
def itemNode (mem : Bytes) (nodes : XmlNodeTraverser) : Option (Unit ⊕ NextItem) := do
  if !nodes.nodeName.eqLit mem "item" then return .inl ()
  match ← attrLoop mem (fun target attr => some (itemAttr mem target attr)) nodes.node.data {} with
  | .inr _ => return .inr .bad
  | .inl (state, data, target) =>
    if state = .noattr then
      let reason ← xmlfsmSkiptoNode mem { data := data, stop := nodes.node.stop } "reason"
      return .inr (.item { target with reasonNode := reason.map (·.bytes mem) } nodes.buffer)
    else return .inr (.item target nodes.buffer)

/-- `next_muc_admin_item`. -/
def nextMucAdminItem (mem : Bytes) (node : Span) : Option NextItem := do
  match ← siblingLoop mem (fun (_ : Unit) nodes => itemNode mem nodes) node () with
  | .inl _ => return .finished
  | .inr next => return next

/-- What one turn of the loop over the items finds. -/
inductive ItemRead
  | item (target : AdminTarget)
  | bad
  | undefined

/-- What the calls of `next_muc_admin_item` deliver until it returns `FALSE` or -1. -/
def itemReads (mem : Bytes) : Nat → Span → List ItemRead
  | 0, _ => [.undefined]
  | n + 1, node =>
    match nextMucAdminItem mem node with
    | none => [.undefined]
    | some .finished => []
    | some .bad => [.bad]
    | some (.item target rest) => .item target :: itemReads mem n rest

/-! ## The affected list -/

/-- The room and the addresses on the affected list, in the order of the list. -/
structure AdminState where
  room : Room
  affected : List Nat

/--
`participant_set_affected` on one participant, after the change `f` to it.

A reason points into the stanza, and is kept by value: it lies in the payload, where
`packet_cleanup` of an IQ writes nothing. If the request is refused in the end, the pointer outlives
the stanza; what is read there later is the matter of `Room.reread`.
-/
def affectOne (st : AdminState) (receiver : Nat × Participant) (reasonNode : Buffer)
    (f : Participant → Participant) : AdminState where
  room := st.room.modify receiver.1 (fun p => setAffected reasonNode (f p))
  affected :=
    if receiver.2.affectedList.included then st.affected else st.affected ++ [receiver.1]

/--
A `DLS_FOREACH` over the participants that changes some of them, those where `f` is not `none`,
and calls `participant_set_affected` on these.
-/
def affectEach (st : AdminState) (reasonNode : Buffer) (f : Participant → Option Participant) :
    AdminState where
  room := st.room.mapVals (fun p => ((f p).map (setAffected reasonNode)).getD p)
  affected := st.affected ++
    (st.room.occupants.filter (fun n => (f n.2).isSome && !n.2.affectedList.included)).map Prod.fst

/-! ## One item -/

/-- An item that sets a role. -/
def roleItem (st : AdminState) (sender : Participant) (role : Int) (target : AdminTarget) :
    Except XMPPError AdminState :=
  match participantsFindByNick st.room.participants target.nick with
  | none => .error errorRecipientNotInRoom
  | some (addr, receiver) =>
    -- no one can change role of admin+; if just a moderator, may only change roles of
    -- non-moderators to non-moderators
    if receiver.affiliation ≥ affilAdmin ∨ (sender.affiliation < affilAdmin ∧
        (receiver.role ≥ roleModerator ∨ role ≥ roleModerator)) then
      .error errorPrivilegeLevel
    else
      .ok (affectOne st (addr, receiver) target.reasonNode (fun p => { p with role := role }))

/-- The role of an occupant whose affiliation has become another. -/
def roleForChanged (affiliation : Int) : Int :=
  if affiliation ≥ affilAdmin then roleModerator
  else if affiliation = affilOutcast then roleNone
  else roleParticipant

/-- What the loop over the occupants does to one whose affiliation has become another. -/
def reaffiliate (affiliations : Affiliations) (acl : ACLConfig) (receiver : Participant) :
    Option Participant :=
  let affiliation := affiliationssGetByJid affiliations acl receiver.jid
  if affiliation = receiver.affiliation then none
  else some { receiver with role := roleForChanged affiliation, affiliation := affiliation }

/-- An item that sets an affiliation. -/
def affiliationItem (st : AdminState) (sender : Participant) (acl : ACLConfig)
    (affiliation : Affil) (target : AdminTarget) : Except XMPPError AdminState :=
  if sender.affiliation < affilAdmin then .error errorPrivilegeLevel
  else
    match affiliationssAdd st.room.affiliations (some sender) affiliation target.jid
      target.reasonNode with
    | none => .error errorPrivilegeLevel
    | some affiliations =>
      .ok (affectEach { st with room := { st.room with affiliations := affiliations } }
        target.reasonNode (reaffiliate affiliations acl))

/-- Whether an item lacks what it needs, or sets both or none of role and affiliation. -/
def badItem (target : AdminTarget) : Bool :=
  (target.role.isSome && bptBlank target.nick) ||
    (target.affiliation.isSome && jidEmpty target.jid) ||
    target.role.isNone == target.affiliation.isNone

/-- One turn of the loop over the items. -/
def adminItem (acl : ACLConfig) (st : AdminState) (sender : Participant) (target : AdminTarget) :
    Except XMPPError AdminState :=
  if badItem target then .error errorIqBad
  else
    match target.role, target.affiliation with
    | some role, _ => roleItem st sender role target
    | none, some affiliation => affiliationItem st sender acl affiliation target
    | none, none => .ok st

/-! ## The loop -/

/-- How the loop over the items ends. -/
inductive AdminResult
  /-- a bounce, with the room and the affected list as they stand by then -/
  | refused (st : AdminState) (error : XMPPError)
  | done (st : AdminState)

/-- The state in which the loop over the items ends. -/
def AdminResult.state : AdminResult → AdminState
  | .refused st _ => st
  | .done st => st

/-- The loop over the items. `addr` is the sender, whose fields an item may have changed. -/
def adminLoop (acl : ACLConfig) (addr : Nat) : AdminState → List ItemRead → Option AdminResult
  | st, [] => some (.done st)
  | _, .undefined :: _ => none
  | st, .bad :: _ => some (.refused st errorIqBad)
  | st, .item target :: rest =>
    match st.room.participants.nodes.get? addr with
    | none => none
    | some sender =>
      match adminItem acl st sender target with
      | .error error => some (.refused st error)
      | .ok st => adminLoop acl addr st rest

end Mukite
