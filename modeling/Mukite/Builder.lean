import Mukite.Packet
import Mukite.Room.State

/-!
# Outgoing packets

`src/builder.h` and `worker_bounce` of `src/worker.c`. A packet is what `worker_send` receives;
the host part of the sender is filled in there, the same for every packet.
-/

namespace Mukite

/-- `MucAdminItem`, as a presence carries it. -/
structure MucAdminItem where
  affiliation : Int
  role : Int
  jid : Jid
  nick : Buffer
  reasonNode : Buffer
deriving DecidableEq, Repr

structure XMPPError where
  code : String
  name : String
  type : String
  text : String
deriving DecidableEq, Repr

def buildIqVersion : Nat := 1
def buildIqLast : Nat := 2
def buildIqTime : Nat := 3
def buildIqStats : Nat := 4
def buildIqEmpty : Nat := 5
def buildIqVcard : Nat := 6
def buildIqDiscoInfo : Nat := 11
def buildIqDiscoItems : Nat := 12
def buildIqRoomDiscoInfo : Nat := 21
def buildIqRoomDiscoItems : Nat := 22
def buildIqRoomAffiliations : Nat := 23
def buildIqRoomConfig : Nat := 24

def statusNonAnonymous : Nat := 1
def statusSelfPresence : Nat := 2
def statusLoggingEnabled : Nat := 4
def statusRoomCreated : Nat := 8
def statusNicknameEnforced : Nat := 16
def statusBanned : Nat := 32
def statusNicknameChanged : Nat := 64
def statusKicked : Nat := 128
def statusNonmemberRemoved : Nat := 256

/-- `BuilderPacket.sys_data`. -/
inductive SysData
  | zero
  | error (error : XMPPError)
  | presence (item : MucAdminItem) (statusCodes : Nat) (resume : Buffer)
  | room (room : Room)
  | mucItems (affiliation : Int) (items : List Affiliation)

/-- `BuilderPacket`; the fields that a function does not set are zero. -/
structure BuilderPacket where
  fromNick : Buffer := none
  fromNode : Buffer := none
  toJid : Jid := jidInit
  name : StanzaName := .unset
  type : Nat := 0
  iqType : Nat := 0
  header : Buffer := none
  userData : Buffer := none
  sysData : SysData := .zero

/-- `worker_bounce`; undefined when the payload has a negative size. -/
def workerBounce (ingress : IncomingPacket) (error : XMPPError) (node : Buffer) :
    Option BuilderPacket := do
  let ingress := packetCleanup ingress (packetCleanupTo ||| packetCleanupSwitchFromTo)
  let inner ← ingress.innerBytes
  return { name := ingress.name
           type := stanzaError
           fromNode := node
           header := some ingress.headerBytes
           sysData := .error error
           userData := inner }

/-! ## The text of a presence -/

/-- `affiliation_names[affiliation]`; there is nothing outside the table. -/
def affiliationName (affiliation : Int) : Option Bytes :=
  (affilAll.find? (fun a => a.toInt == affiliation)).map (fun a => lit (affiliationNames a))

/-- `role_names[role]`; there is nothing outside the table. -/
def roleName (role : Int) : Option Bytes :=
  (roleNames.find? (fun r => r.1 == role)).map (fun r => lit r.2)

/-- The codes of `build_presence_mucadm`, in the order of its tests. -/
def statusNames : List (Nat × String) :=
  [(statusNonAnonymous, "100"), (statusSelfPresence, "110"), (statusLoggingEnabled, "170"),
    (statusRoomCreated, "201"), (statusNicknameEnforced, "210"), (statusBanned, "301"),
    (statusNicknameChanged, "303"), (statusKicked, "307"), (statusNonmemberRemoved, "321")]

/-- `BUF_PUSH_STATUS(...) else BUF_PUSH_STATUS(...)`: the first code that is set, and no other. -/
def buildStatus (statusCodes : Nat) : Bytes :=
  match statusNames.find? (fun status => statusCodes &&& status.1 != 0) with
  | none => []
  | some status => lit ("<status code='" ++ status.2 ++ "'/>")

/-- The start of what `build_presence_mucadm` writes. -/
def mucadmTag : Bytes := lit "<x xmlns='http://jabber.org/protocol/muc#user'>"

/-- `build_presence_mucadm`. -/
def buildPresenceMucadm (item : MucAdminItem) (statusCodes : Nat) (resume : Buffer) :
    Option Bytes := do
  let affiliation ← affiliationName item.affiliation
  let role ← roleName item.role
  return mucadmTag ++ (lit "<item affiliation='" ++ affiliation ++ lit "' role='" ++ role ++
    (if jidEmpty item.jid then [] else lit "' jid='" ++ jidStr item.jid) ++
    (match item.nick with
      | none => []
      | some nick => lit "' nick='" ++ nick) ++
    (match item.reasonNode with
      | none => lit "'/>"
      | some reason => lit "'>" ++ reason ++ lit "</item>") ++
    buildStatus statusCodes ++ bptBytes resume ++ lit "</x>")

/-- `build_error`. -/
def buildError (error : XMPPError) : Bytes :=
  lit "<error code='" ++ lit error.code ++ lit "' type='" ++ lit error.type ++ lit "'><" ++
    lit error.name ++ lit " xmlns='urn:ietf:params:xml:ns:xmpp-stanzas'/>" ++
    lit "<text xmlns='urn:ietf:params:xml:ns:xmpp-stanzas'>" ++ lit error.text ++
    lit "</text></error>"

/-- What `builder_build` writes of the header of a presence. -/
def presenceHead (fromHost : Bytes) (packet : BuilderPacket) : Bytes :=
  lit "<presence" ++ bptBytes packet.header ++ lit " from='" ++
    (match packet.fromNode with
      | none => []
      | some node => node ++ lit "@") ++
    fromHost ++
    (match packet.fromNick with
      | none => []
      | some nick => lit "/" ++ nick) ++
    (if jidEmpty packet.toJid then [] else lit "' to='" ++ jidStr packet.toJid) ++
    (if packet.type = 0 then []
      else if packet.type = stanzaError then lit "' type='error"
      else if packet.type = stanzaPresenceUnavailable then lit "' type='unavailable"
      else lit "' type='") ++
    lit "'>"

/-- What `builder_build` adds to the user data of a presence. -/
def presenceAddition (packet : BuilderPacket) : Option Bytes :=
  if packet.type = stanzaError then
    match packet.sysData with
    | .error error => some (buildError error)
    | .zero => some []
    | _ => none
  else
    match packet.sysData with
    | .presence item statusCodes resume => buildPresenceMucadm item statusCodes resume
    | _ => none

/-- `builder_build` for a presence that is not delayed, in a buffer that is large enough. -/
def builderBuildPresence (fromHost : Bytes) (packet : BuilderPacket) : Option Bytes :=
  (presenceAddition packet).map (fun addition =>
    presenceHead fromHost packet ++ (bptBytes packet.userData ++ addition) ++ lit "</presence>")

/-! ## The text of the other packets -/

/-- The name of a type that is not 0. -/
def typeName (name : StanzaName) (type : Nat) : Bytes :=
  if type = stanzaError then lit "error"
  else
    match name with
    | .iq =>
      if type = stanzaIqGet then lit "get"
      else if type = stanzaIqSet then lit "set"
      else if type = stanzaIqResult then lit "result"
      else []
    | .message =>
      if type = stanzaMessageChat then lit "chat"
      else if type = stanzaMessageGroupchat then lit "groupchat"
      else []
    | .presence => if type = stanzaPresenceUnavailable then lit "unavailable" else []
    | .unset => []

/-- How the stanzas are called, nothing for a packet without a name. -/
def stanzaWord : StanzaName → Bytes
  | .message => lit "message"
  | .presence => lit "presence"
  | .iq => lit "iq"
  | .unset => []

/-- The start of a start tag. -/
def tagStart (name : StanzaName) : Bytes :=
  if name = .unset then [] else ch '<' :: stanzaWord name

def endTag (name : StanzaName) : Bytes :=
  if name = .unset then [] else lit "</" ++ stanzaWord name ++ lit ">"

/-- The text of the sender: the node with its separator, the host, the nick with its separator. -/
def fromText (fromHost : Bytes) (packet : BuilderPacket) : Bytes :=
  (match packet.fromNode with
    | none => []
    | some node => node ++ lit "@") ++
  fromHost ++
  (match packet.fromNick with
    | none => []
    | some nick => lit "/" ++ nick)

/-- What `builder_build` writes of the start tag of a packet. -/
def builderHead (fromHost : Bytes) (packet : BuilderPacket) : Bytes :=
  tagStart packet.name ++ bptBytes packet.header ++ lit " from='" ++ fromText fromHost packet ++
    (if jidEmpty packet.toJid then [] else lit "' to='" ++ jidStr packet.toJid) ++
    (if packet.type = 0 then [] else lit "' type='" ++ typeName packet.name packet.type) ++
    lit "'>"

/-- `BUF_PUSH_BOOL`. -/
def pushBool (value : Bool) : Bytes := if value then lit "1" else lit "0"

/-- `BUF_PUSH_FEATURE`. -/
def pushFeature (test : Bool) (ifTrue ifFalse : String) : Bytes :=
  lit ("<feature var='" ++ (if test then ifTrue else ifFalse) ++ "'/>")

/-- `BUF_PUSH_FIELD`. -/
def pushField (type label var : String) (data appendix : Bytes) : Bytes :=
  lit ("<field type='" ++ type ++ "' label='" ++ label ++ "' var='" ++ var ++ "'><value>") ++
    data ++ lit "</value>" ++ appendix ++ lit "</field>"

/-- `build_room_items`. -/
def buildRoomItems (room : Room) (hostname : Bytes) : Bytes :=
  (room.occupants.map (fun current =>
    lit "<item name='" ++ bptBytes current.2.nick ++ lit "' jid='" ++ bptBytes room.node ++
      lit "@" ++ hostname ++ lit "/" ++ bptBytes current.2.nick ++ lit "'/>")).flatten

/-- `build_room_info`. -/
def buildRoomInfo (room : Room) : Bytes :=
  lit "<identity category='conference' type='text' name='" ++
    (if bptBlank room.title then bptBytes room.node else bptBytes room.title) ++
    lit ("'/><feature var='http://jabber.org/protocol/muc'/>" ++
      "<feature var='http://jabber.org/protocol/disco#info'/>") ++
    (if room.hasFlag mucFlagPublicparticipants then
      lit "<feature var='http://jabber.org/protocol/disco#items'/>" else []) ++
    pushFeature (room.hasFlag mucFlagPublicroom) "muc_public" "muc_hidden" ++
    pushFeature (room.hasFlag mucFlagPersistentroom) "muc_persistent" "muc_temporary" ++
    pushFeature (room.hasFlag mucFlagMembersonly) "muc_membersonly" "muc_open" ++
    pushFeature (room.hasFlag mucFlagSemianonymous) "muc_semianonymous" "muc_nonanonymous" ++
    pushFeature (room.hasFlag mucFlagModeratedroom) "muc_moderated" "muc_unmoderated" ++
    pushFeature (room.hasFlag mucFlagPasswordprotectedroom) "muc_passwordprotected"
      "muc_unsecured"

/-- `build_room_affiliations`; there is nothing outside the table of names. -/
def buildRoomAffiliations (items : List Affiliation) (affiliation : Int) : Option Bytes :=
  if items.isEmpty then some []
  else (affiliationName affiliation).map (fun name =>
    (items.map (fun aff =>
      lit "<item affiliation='" ++ name ++ lit "' jid='" ++ jidStr aff.jid ++
        (match aff.reasonNode with
          | none => lit "'><reason/></item>"
          | some reason => lit "'>" ++ reason ++ lit "</item>"))).flatten)

/-- The choices of a field. -/
def choiceOptions (options : List (String × String)) : Bytes :=
  (options.map (fun option =>
    lit ("<option label='" ++ option.1 ++ "'><value>" ++ option.2 ++ "</value></option>"))).flatten

/-- `build_room_config`. -/
def buildRoomConfig (room : Room) : Bytes :=
  let flag (label var : String) (flag : MucFlags) : Bytes :=
    pushField "boolean" label var (pushBool (room.hasFlag flag)) []
  lit ("<instructions>You need an x:data capable client to configure room</instructions>" ++
      "<x xmlns='jabber:x:data' type='form'><title>Configuration of room ") ++
    bptBytes room.node ++ lit "</title>" ++
    pushField "hidden" "" "FORM_TYPE" (lit "http://jabber.org/protocol/muc#roomconfig") [] ++
    pushField "text-single" "Room title" "muc#roomconfig_roomname" (bptBytes room.title) [] ++
    pushField "text-single" "Room description" "muc#roomconfig_roomdesc"
      (bptBytes room.description) [] ++
    flag "Make room persistent" "muc#roomconfig_persistentroom" mucFlagPersistentroom ++
    flag "Make room public searchable" "muc#roomconfig_publicroom" mucFlagPublicroom ++
    flag "Make participants list public" "public_list" mucFlagPublicparticipants ++
    flag "Make room password protected" "muc#roomconfig_passwordprotectedroom"
      mucFlagPasswordprotectedroom ++
    pushField "text-private" "Password" "muc#roomconfig_roomsecret" (bptBytes room.password) [] ++
    pushField "list-single" "Maximum Number of Occupants" "muc#roomconfig_maxusers"
      (lit (toString room.participants.maxSize))
      (choiceOptions [("5", "5"), ("10", "10"), ("20", "20"), ("30", "30"), ("50", "50"),
        ("100", "100"), ("200", "200"), ("500", "500"), ("1000", "1000")]) ++
    pushField "list-single" "Present real Jabber IDs to" "muc#roomconfig_whois"
      (if room.hasFlag mucFlagSemianonymous then lit "moderators" else lit "anyone")
      (choiceOptions [("moderators only", "moderators"), ("anyone", "anyone")]) ++
    flag "Make room members-only" "muc#roomconfig_membersonly" mucFlagMembersonly ++
    flag "Make room moderated" "muc#roomconfig_moderatedroom" mucFlagModeratedroom ++
    pushField "boolean" "Default users as participants" "members_by_default"
      (pushBool (room.defaultRole == roleParticipant)) [] ++
    flag "Allow users to change the subject" "muc#roomconfig_changesubject"
      mucFlagChangesubject ++
    flag "Allow users to send private messages" "allow_private_messages" mucFlagAllowpm ++
    flag "Allow users to query other users" "allow_query_users" mucFlagIqProxy ++
    flag "Allow users to send invites" "muc#roomconfig_allowinvites" mucFlagInvites ++
    flag "Allow visitors to send private messages" "muc#roomconfig_allowvisitorspm"
      mucFlagVisitorspm ++
    flag "Allow visitors to send custom status and change nickname"
      "muc#roomconfig_allowvisitorpresence" mucFlagVisitorpresence ++
    flag "Enable built-in bot (MewCat)" "muc#roomconfig_mewcat" mucFlagMewcat ++
    lit "</x>"

/--
What `builder_build` adds to the result of a query about a room. The other replies, those of the
component, are left out.
-/
def roomReply (fromHost : Bytes) (packet : BuilderPacket) : Option Bytes :=
  let query (xmlns : String) (content : Bytes) : Bytes :=
    lit ("<query xmlns='" ++ xmlns ++ "'>") ++ content ++ lit "</query>"
  if packet.iqType = buildIqEmpty then some []
  else if packet.iqType = buildIqRoomDiscoInfo then
    match packet.sysData with
    | .room room => some (query "http://jabber.org/protocol/disco#info" (buildRoomInfo room))
    | _ => none
  else if packet.iqType = buildIqRoomDiscoItems then
    match packet.sysData with
    | .room room =>
      some (query "http://jabber.org/protocol/disco#items" (buildRoomItems room fromHost))
    | _ => none
  else if packet.iqType = buildIqRoomAffiliations then
    match packet.sysData with
    | .mucItems affiliation items =>
      (buildRoomAffiliations items affiliation).map (query xmlnsMucAdmin)
    | _ => none
  else if packet.iqType = buildIqRoomConfig then
    match packet.sysData with
    | .room room => some (query xmlnsMucOwner (buildRoomConfig room))
    | _ => none
  else none

/-- What `builder_build` adds to the user data of a packet. -/
def builderAddition (fromHost : Bytes) (packet : BuilderPacket) : Option Bytes :=
  if packet.name = .presence ∨ packet.type = stanzaError then presenceAddition packet
  else if packet.name = .iq then roomReply fromHost packet
  else some []

/-- `builder_build` for a packet that is not delayed, in a buffer that is large enough. -/
def builderBuild (fromHost : Bytes) (packet : BuilderPacket) : Option Bytes :=
  (builderAddition fromHost packet).map (fun addition =>
    builderHead fromHost packet ++ (bptBytes packet.userData ++ addition) ++ endTag packet.name)

/-- For a presence this is what `builderBuildPresence` says. -/
theorem builderBuild_presence {fromHost : Bytes} {packet : BuilderPacket}
    (h : packet.name = .presence) :
    builderBuild fromHost packet = builderBuildPresence fromHost packet := by
  have hadd : builderAddition fromHost packet = presenceAddition packet := by
    unfold builderAddition
    rw [if_pos (.inl h)]
  have htype : (if packet.type = 0 then []
        else lit "' type='" ++ typeName .presence packet.type : Bytes)
      = if packet.type = 0 then []
        else if packet.type = stanzaError then lit "' type='error"
        else if packet.type = stanzaPresenceUnavailable then lit "' type='unavailable"
        else lit "' type='" := by
    unfold typeName
    dsimp only
    by_cases hzero : packet.type = 0
    · rw [if_pos hzero, if_pos hzero]
    · rw [if_neg hzero, if_neg hzero]
      by_cases herror : packet.type = stanzaError
      · rw [if_pos herror, if_pos herror]
        decide
      · rw [if_neg herror, if_neg herror]
        split <;> decide
  have hhead : builderHead fromHost packet = presenceHead fromHost packet := by
    unfold builderHead presenceHead fromText
    rw [h, htype]
    simp only [List.append_assoc]
    rfl
  unfold builderBuild builderBuildPresence
  rw [hadd, hhead, h]
  rfl

end Mukite
