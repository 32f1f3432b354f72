import Mukite.Lib.Output
import Mukite.Rendering

/-!
# `builder_build` in its buffer

`src/builder.c`, push by push. Each macro is a list of pieces and each function the pieces of its
macros in their order; they are pushed into a `BuilderBuffer` until one does not fit. Sizes are
those of the strings: the program keeps them in an `int`, as it does the sizes of its buffers.

Some bytes are what they happen to be (`Stray`). One of them comes into a stanza: `build_iq_time`
moves three bytes of its `str_buffer` on by one with `memcpy`, which says nothing of what it leaves
when it copies to where it copies from.
-/

namespace Mukite

/-- Bytes of which nothing is said. -/
structure Stray where
  /-- what `strftime` leaves behind where it returns 0 -/
  scraps : Bytes → Nat → Bytes
  /-- `str_buffer` of `build_iq_time`, before anything is written to it -/
  strBuffer : Bytes
  strBuffer_length : strBuffer.length = 10
  /-- what `memcpy` leaves where three bytes are copied to a place that overlaps theirs -/
  overlapped : Bytes → Bytes
  overlapped_length : ∀ three, (overlapped three).length = 3
  /-- what is on the stack behind `str_buffer` -/
  behind : Bytes

/-- `str_buffer` of `build_iq_time` when it is pushed. -/
def Stray.zoneBuffer (stray : Stray) (clock : Clock) : Bytes :=
  let printed := memcpy stray.strBuffer 0 (clock.zone ++ [0])
  if clock.zone.length = 5 then
    -- the three bytes from 3 on are copied to 4
    memcpy (memcpy printed 4 (stray.overlapped ((printed.drop 3).take 3))) 3 (lit ":")
  else printed

/-- The string that starts in some memory; there is none without a terminator. -/
def terminated (mem : Bytes) : Option Bytes :=
  if 0 ∈ mem then some (mem.takeWhile (· != 0)) else none

/-- The string in `str_buffer`, which ends behind it if it has no terminator. -/
def Stray.zoneText (stray : Stray) (clock : Clock) : Option Bytes :=
  terminated (stray.zoneBuffer clock ++ stray.behind)

namespace Pushes

abbrev Push := Output.Piece UInt8

/-! ## The macros -/

/-- `BUF_PUSH`, `BUF_PUSH_BUF`, `BUF_PUSH_STR`. -/
def bufPush (data : Bytes) : List Push := [.copied data]

/-- `BUF_PUSH_LITERAL`. -/
def bufPushLiteral (data : String) : List Push := bufPush (lit data)

/-- `BUF_PUSH_BPT`, `BUF_PUSH_BUF`: a null pointer has size 0. -/
def bufPushBpt (data : Buffer) : List Push := bufPush (bptBytes data)

/-- `BUF_PUSH_IFBPT`. -/
def bufPushIfbpt : Buffer → List Push
  | none => []
  | some data => bufPush data

/-- `BUF_PUSH_FMT("%d", value)`. -/
def bufPushFmt (value : Int) : List Push := [.printed (lit (toString value))]

/-- `BUF_PUSH_BOOL`. -/
def bufPushBool (value : Bool) : List Push :=
  if value then bufPushLiteral "1" else bufPushLiteral "0"

/-- The chain of `BUF_PUSH_STATUS`. -/
def bufPushStatus (statusCodes : Nat) : List Push :=
  match statusNames.find? (fun status => statusCodes &&& status.1 != 0) with
  | none => []
  | some status => bufPushLiteral ("<status code='" ++ status.2 ++ "'/>")

/-- `BUF_PUSH_STAT`. -/
def bufPushStat (name : String) (value : Int) (units : String) : List Push :=
  bufPushLiteral ("<stat name='" ++ name ++ "' units='" ++ units ++ "' value='") ++
    bufPushFmt value ++ bufPushLiteral "'/>"

/-- `BUF_PUSH_FEATURE`. -/
def bufPushFeature (test : Bool) (ifTrue ifFalse : String) : List Push :=
  bufPushLiteral ("<feature var='" ++ (if test then ifTrue else ifFalse) ++ "'/>")

/-- `BUF_PUSH_FIELD`. -/
def bufPushField (type label var : String) (data appendix : List Push) : List Push :=
  bufPushLiteral ("<field type='" ++ type ++ "' label='" ++ label ++ "' var='" ++ var ++
      "'><value>") ++
    data ++ bufPushLiteral "</value>" ++ appendix ++ bufPushLiteral "</field>"

/-! ## The functions -/

/-- `build_presence_mucadm`. -/
def buildPresenceMucadm (item : MucAdminItem) (statusCodes : Nat) (resume : Buffer) :
    Option (List Push) := do
  let affiliation ← affiliationName item.affiliation
  let role ← roleName item.role
  return bufPushLiteral ("<x xmlns='http://jabber.org/protocol/muc#user'>" ++
      "<item affiliation='") ++
    bufPush affiliation ++ bufPushLiteral "' role='" ++ bufPush role ++
    (if jidEmpty item.jid then [] else bufPushLiteral "' jid='" ++ bufPush (jidStr item.jid)) ++
    (match item.nick with
      | none => []
      | some nick => bufPushLiteral "' nick='" ++ bufPush nick) ++
    (match item.reasonNode with
      | none => bufPushLiteral "'/>"
      | some reason => bufPushLiteral "'>" ++ bufPush reason ++ bufPushLiteral "</item>") ++
    bufPushStatus statusCodes ++ bufPushIfbpt resume ++ bufPushLiteral "</x>"

/-- `build_stats`. -/
def buildStats (clock : Clock) (queue : StanzaQueueStats) (ringbuffer : RingBufferStats) :
    List Push :=
  bufPushStat "queue/overflows" queue.overflows "times" ++
    bufPushStat "queue/underflows" queue.underflows "times" ++
    bufPushStat "queue/realloc_enlarges" queue.reallocEnlarges "times" ++
    bufPushStat "queue/realloc_shortens" queue.reallocShortens "times" ++
    bufPushStat "queue/mallocs" queue.mallocs "times" ++
    bufPushStat "queue/data_pushes" queue.dataPushes "times" ++
    bufPushStat "queue/data_pops" queue.dataPops "times" ++
    bufPushStat "queue/free_pushes" queue.freePushes "times" ++
    bufPushStat "queue/free_pops" queue.freePops "times" ++
    bufPushStat "ringbuffer/underflows" ringbuffer.underflows "times" ++
    bufPushStat "ringbuffer/overflows" ringbuffer.overflows "times" ++
    bufPushStat "ringbuffer/reads" ringbuffer.reads "times" ++
    bufPushStat "ringbuffer/writes" ringbuffer.writes "times" ++
    bufPushStat "time/uptime" clock.seconds "seconds"

/-- `build_room_items`. -/
def buildRoomItems (room : Room) (hostname : Buffer) : List Push :=
  (room.occupants.map (fun current =>
    bufPushLiteral "<item name='" ++ bufPushBpt current.2.nick ++ bufPushLiteral "' jid='" ++
      bufPushBpt room.node ++ bufPushLiteral "@" ++ bufPushBpt hostname ++ bufPushLiteral "/" ++
      bufPushBpt current.2.nick ++ bufPushLiteral "'/>")).flatten

/-- `build_room_info`. -/
def buildRoomInfo (room : Room) : List Push :=
  bufPushLiteral "<identity category='conference' type='text' name='" ++
    (if bptBlank room.title then bufPushBpt room.node else bufPushBpt room.title) ++
    bufPushLiteral ("'/><feature var='http://jabber.org/protocol/muc'/>" ++
      "<feature var='http://jabber.org/protocol/disco#info'/>") ++
    (if room.hasFlag mucFlagPublicparticipants then
      bufPushLiteral "<feature var='http://jabber.org/protocol/disco#items'/>" else []) ++
    bufPushFeature (room.hasFlag mucFlagPublicroom) "muc_public" "muc_hidden" ++
    bufPushFeature (room.hasFlag mucFlagPersistentroom) "muc_persistent" "muc_temporary" ++
    bufPushFeature (room.hasFlag mucFlagMembersonly) "muc_membersonly" "muc_open" ++
    bufPushFeature (room.hasFlag mucFlagSemianonymous) "muc_semianonymous" "muc_nonanonymous" ++
    bufPushFeature (room.hasFlag mucFlagModeratedroom) "muc_moderated" "muc_unmoderated" ++
    bufPushFeature (room.hasFlag mucFlagPasswordprotectedroom) "muc_passwordprotected"
      "muc_unsecured"

/-- `build_room_affiliations`. -/
def buildRoomAffiliations (items : List Affiliation) (affiliation : Int) : Option (List Push) :=
  if items.isEmpty then some []
  else (affiliationName affiliation).map (fun name =>
    (items.map (fun aff =>
      bufPushLiteral "<item affiliation='" ++ bufPush name ++ bufPushLiteral "' jid='" ++
        bufPush (jidStr aff.jid) ++
        (match aff.reasonNode with
          | none => bufPushLiteral "'><reason/></item>"
          | some reason =>
            bufPushLiteral "'>" ++ bufPush reason ++ bufPushLiteral "</item>"))).flatten)

/-- `build_room_config`. -/
def buildRoomConfig (room : Room) : List Push :=
  let flag (label var : String) (flag : MucFlags) : List Push :=
    bufPushField "boolean" label var (bufPushBool (room.hasFlag flag)) []
  bufPushLiteral
      ("<instructions>You need an x:data capable client to configure room</instructions>" ++
        "<x xmlns='jabber:x:data' type='form'><title>Configuration of room ") ++
    bufPushBpt room.node ++ bufPushLiteral "</title>" ++
    bufPushField "hidden" "" "FORM_TYPE"
      (bufPushLiteral "http://jabber.org/protocol/muc#roomconfig") [] ++
    bufPushField "text-single" "Room title" "muc#roomconfig_roomname" (bufPushBpt room.title) [] ++
    bufPushField "text-single" "Room description" "muc#roomconfig_roomdesc"
      (bufPushBpt room.description) [] ++
    flag "Make room persistent" "muc#roomconfig_persistentroom" mucFlagPersistentroom ++
    flag "Make room public searchable" "muc#roomconfig_publicroom" mucFlagPublicroom ++
    flag "Make participants list public" "public_list" mucFlagPublicparticipants ++
    flag "Make room password protected" "muc#roomconfig_passwordprotectedroom"
      mucFlagPasswordprotectedroom ++
    bufPushField "text-private" "Password" "muc#roomconfig_roomsecret"
      (bufPushBpt room.password) [] ++
    bufPushField "list-single" "Maximum Number of Occupants" "muc#roomconfig_maxusers"
      (bufPushFmt room.participants.maxSize)
      (bufPush (choiceOptions [("5", "5"), ("10", "10"), ("20", "20"), ("30", "30"), ("50", "50"),
        ("100", "100"), ("200", "200"), ("500", "500"), ("1000", "1000")])) ++
    bufPushField "list-single" "Present real Jabber IDs to" "muc#roomconfig_whois"
      (if room.hasFlag mucFlagSemianonymous then bufPushLiteral "moderators"
        else bufPushLiteral "anyone")
      (bufPush (choiceOptions [("moderators only", "moderators"), ("anyone", "anyone")])) ++
    flag "Make room members-only" "muc#roomconfig_membersonly" mucFlagMembersonly ++
    flag "Make room moderated" "muc#roomconfig_moderatedroom" mucFlagModeratedroom ++
    bufPushField "boolean" "Default users as participants" "members_by_default"
      (bufPushBool (room.defaultRole == roleParticipant)) [] ++
    flag "Allow users to change the subject" "muc#roomconfig_changesubject"
      mucFlagChangesubject ++
    flag "Allow users to send private messages" "allow_private_messages" mucFlagAllowpm ++
    flag "Allow users to query other users" "allow_query_users" mucFlagIqProxy ++
    flag "Allow users to send invites" "muc#roomconfig_allowinvites" mucFlagInvites ++
    flag "Allow visitors to send private messages" "muc#roomconfig_allowvisitorspm"
      mucFlagVisitorspm ++
    flag "Allow visitors to send custom status and change nickname"
      "muc#roomconfig_allowvisitorpresence" mucFlagVisitorpresence ++
    flag "Enable built-in bot (MewCat)" "muc#roomconfig_mewcat" mucFlagMewcat ++
    bufPushLiteral "</x>"

/-- `build_strftime`. -/
def buildStrftime (clock : Clock) (t : Int) (utcMark : Bool) : List Push :=
  [.stamped (clock.date t utcMark)] ++ (if utcMark then bufPushLiteral "Z" else [])

/-- `build_iq_time`, undefined when `strlen` finds no terminator. -/
def buildIqTimeText (stray : Stray) (clock : Clock) : Option (List Push) :=
  (stray.zoneText clock).map (fun tzo =>
    bufPushLiteral "<tzo>" ++ bufPush tzo ++ bufPushLiteral "</tzo><utc>" ++
      buildStrftime clock clock.time true ++ bufPushLiteral "</utc>")

/-- `build_error`. -/
def buildError (error : XMPPError) : List Push :=
  bufPushLiteral "<error code='" ++ bufPush (lit error.code) ++ bufPushLiteral "' type='" ++
    bufPush (lit error.type) ++ bufPushLiteral "'><" ++ bufPush (lit error.name) ++
    bufPushLiteral (" xmlns='urn:ietf:params:xml:ns:xmpp-stanzas'/>" ++
      "<text xmlns='urn:ietf:params:xml:ns:xmpp-stanzas'>") ++
    bufPush (lit error.text) ++ bufPushLiteral "</text></error>"

/-! ## `builder_build` -/

/-- The sender. -/
def fromPieces (packet : OutgoingPacket) : List Push :=
  (match packet.fromNode with
    | none => []
    | some node => bufPush node ++ bufPushLiteral "@") ++
  bufPushBpt packet.fromHost ++
  (match packet.fromNick with
    | none => []
    | some nick => bufPushLiteral "/" ++ bufPush nick)

/-- The start tag. -/
def headPieces (packet : OutgoingPacket) : List Push :=
  (if packet.name = .unset then [] else bufPush (tagStart packet.name)) ++
    bufPushIfbpt packet.header ++ bufPushLiteral " from='" ++ fromPieces packet ++
    (if jidEmpty packet.toJid then []
      else bufPushLiteral "' to='" ++ bufPush (jidStr packet.toJid)) ++
    (if packet.type = 0 then []
      else bufPushLiteral "' type='" ++ bufPush (typeName packet.name packet.type)) ++
    bufPushLiteral "'>"

/-- The part for an error, or for a presence. -/
def presenceAddition (packet : OutgoingPacket) : Option (List Push) :=
  if packet.type = stanzaError then
    match packet.sysData with
    | .error error => some (buildError error)
    | .zero => some []
    | _ => none
  else
    match packet.sysData with
    | .presence item statusCodes resume => buildPresenceMucadm item statusCodes resume
    | _ => none

/-- A `<query/>` with its content. -/
def query (xmlns : String) (content : List Push) : List Push :=
  bufPushLiteral ("<query xmlns='" ++ xmlns ++ "'>") ++ content ++ bufPushLiteral "</query>"

/-- The part for an IQ that is not an error: the `switch` on `iq_type`. -/
def iqReply (stray : Stray) (clock : Clock) (packet : OutgoingPacket) : Option (List Push) :=
  if packet.iqType = buildIqVersion then
    some (bufPushLiteral ("<query xmlns='jabber:iq:version'>" ++
        "<name>Mukite http://mukite.org/</name><version>git</version><os>") ++
      bufPush packet.uname.sysname ++ bufPushLiteral "/" ++ bufPush packet.uname.machine ++
      bufPushLiteral " " ++ bufPush packet.uname.release ++ bufPushLiteral "</os></query>")
  else if packet.iqType = buildIqLast then
    some (bufPushLiteral "<query xmlns='jabber:iq:last' seconds='" ++ bufPushFmt clock.seconds ++
      bufPushLiteral "'/>")
  else if packet.iqType = buildIqTime then
    (buildIqTimeText stray clock).map (fun time =>
      bufPushLiteral "<time xmlns='urn:xmpp:time'>" ++ time ++ bufPushLiteral "</time>")
  else if packet.iqType = buildIqStats then
    packet.stats.map (fun stats =>
      query "http://jabber.org/protocol/stats" (buildStats clock stats.1 stats.2))
  else if packet.iqType = buildIqDiscoInfo then
    some (query "http://jabber.org/protocol/disco#info" (bufPush componentInfo))
  else if packet.iqType = buildIqRoomDiscoInfo then
    match packet.sysData with
    | .room room => some (query "http://jabber.org/protocol/disco#info" (buildRoomInfo room))
    | _ => none
  else if packet.iqType = buildIqDiscoItems then
    -- `build_component_items` is commented out
    some (query "http://jabber.org/protocol/disco#items" [])
  else if packet.iqType = buildIqRoomDiscoItems then
    match packet.sysData with
    | .room room =>
      some (query "http://jabber.org/protocol/disco#items" (buildRoomItems room packet.fromHost))
    | _ => none
  else if packet.iqType = buildIqRoomAffiliations then
    match packet.sysData with
    | .mucItems affiliation items =>
      (buildRoomAffiliations items affiliation).map (query xmlnsMucAdmin)
    | _ => none
  else if packet.iqType = buildIqRoomConfig then
    match packet.sysData with
    | .room room => some (query xmlnsMucOwner (buildRoomConfig room))
    | _ => none
  else if packet.iqType = buildIqVcard then
    some (bufPush vcardReply)
  else some []

/-- What stands behind the user data. -/
def addition (stray : Stray) (clock : Clock) (packet : OutgoingPacket) : Option (List Push) :=
  if packet.type = stanzaError ∨ packet.name = .presence then presenceAddition packet
  else if packet.name = .iq then iqReply stray clock packet
  else some []

/-- The marks of a delayed stanza. -/
def delayPieces (clock : Clock) (packet : OutgoingPacket) : List Push :=
  if packet.delay = 0 then []
  else
    bufPushLiteral "<delay xmlns='urn:xmpp:delay' from='" ++
      (match packet.fromNode with
        | none => []
        | some node => bufPush node ++ bufPushLiteral "@") ++
      bufPushBpt packet.fromHost ++ bufPushLiteral "' stamp='" ++
      buildStrftime clock packet.delay true ++
      bufPushLiteral "'/><x xmlns='jabber:x:delay' stamp='" ++
      buildStrftime clock packet.delay false ++ bufPushLiteral "'/>"

/-- The pushes of `builder_build`, nothing where it reads outside of a table or of the union, or
behind the stack. -/
def pieces (stray : Stray) (clock : Clock) (packet : OutgoingPacket) : Option (List Push) :=
  (addition stray clock packet).map (fun addition =>
    headPieces packet ++ bufPushIfbpt packet.userData ++ addition ++ delayPieces clock packet ++
      (if packet.name = .unset then [] else bufPush (endTag packet.name)))

end Pushes

/-! ## The buffer -/

/-- `BuilderBuffer`, in the memory of the process. -/
structure BuilderBuffer where
  mem : Bytes
  data : Nat
  dataEnd : Nat
  stop : Nat

namespace BuilderBuffer

/-- What is behind `data_end`. -/
def block (buffer : BuilderBuffer) : Output.Block UInt8 where
  mem := buffer.mem
  pos := buffer.dataEnd
  stop := buffer.stop

/-- The bytes from `data` to `data_end`. -/
def bytes (buffer : BuilderBuffer) : Bytes :=
  (buffer.mem.drop buffer.data).take (buffer.dataEnd - buffer.data)

/-- The buffer as `worker_send` hands it over: empty, and allocated. -/
structure Empty (buffer : BuilderBuffer) : Prop where
  dataEnd : buffer.dataEnd = buffer.data
  le : buffer.data ≤ buffer.stop
  allocated : buffer.stop ≤ buffer.mem.length

end BuilderBuffer

/-- `builder_build`: the buffer afterwards, and what is returned. -/
def builderBuildInto (stray : Stray) (clock : Clock) (packet : OutgoingPacket)
    (buffer : BuilderBuffer) : Option (BuilderBuffer × Bool) :=
  (Pushes.pieces stray clock packet).map (fun pieces =>
    let after := Output.run 0 stray.scraps pieces buffer.block
    ({ buffer with mem := after.1.mem, dataEnd := after.1.pos }, after.2))

end Mukite
