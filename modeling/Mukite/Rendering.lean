import Mukite.Builder

/-!
# What a packet says

The rest of `src/builder.c`: the replies of the component, the mark of a delayed stanza, and with
them the whole text of every packet (`rendering`). The clock, the time zone and the name of the
system are given. The offset of the time zone is what the comment in `build_iq_time` says it is.
-/

namespace Mukite

/-! ## Time -/

/-- `struct tm`, in UTC. -/
structure Tm where
  year : Int
  mon : Int
  mday : Int
  hour : Int
  min : Int
  sec : Int
deriving DecidableEq, Repr

/-- The civil date of a day counted from 1 January 1970, for the months from March on. -/
def civilDate (day : Int) : Int × Int × Int :=
  let z := day + 719468
  let era := z / 146097
  let doe := z % 146097
  let yoe := (doe - doe / 1460 + doe / 36524 - doe / 146096) / 365
  let doy := doe - (365 * yoe + yoe / 4 - yoe / 100)
  let mp := (5 * doy + 2) / 153
  let month := if mp < 10 then mp + 3 else mp - 9
  (yoe + era * 400 + (if month ≤ 2 then 1 else 0), month, doy - (153 * mp + 2) / 5 + 1)

/-- `gmtime_r`, which fails if `tm_year` does not hold the year. -/
def gmtimeR (t : Int) : Option Tm :=
  let (year, mon, mday) := civilDate (t / 86400)
  let sec := t % 86400
  if IsInt (year - 1900) then
    some { year := year - 1900, mon := mon - 1, mday := mday
           hour := sec / 3600, min := sec / 60 % 60, sec := sec % 60 }
  else none

/-- A number of at least two digits. -/
def twoDigits (n : Int) : String := if 0 ≤ n ∧ n < 10 then "0" ++ toString n else toString n

/-- `strftime` with `%Y-%m-%dT%T` if the mark is set, else with `%Y%m%dT%T`. -/
def strftime (utcMark : Bool) (tm : Tm) : Bytes :=
  let dash := if utcMark then "-" else ""
  lit (toString (tm.year + 1900) ++ dash ++ twoDigits (tm.mon + 1) ++ dash ++ twoDigits tm.mday ++
    "T" ++ twoDigits tm.hour ++ ":" ++ twoDigits tm.min ++ ":" ++ twoDigits tm.sec)

example : strftime true ((gmtimeR 1330000496).getD ⟨0, 0, 0, 0, 0, 0⟩)
    = lit "2012-02-23T12:34:56" := by decide

def timerResolution : Int := 10

/-- What a packet is built with: the timer, the time zone and the system. -/
structure Clock where
  /-- `timer_config.start` -/
  start : Int
  /-- `timer_config.ticks` -/
  ticks : Int
  /-- the time zone, as `%z` says it -/
  zone : Bytes
  /-- `%z` with its terminator fits into `str_buffer` -/
  zone_lt : zone.length < 10
  /-- it is a string -/
  zone_string : 0 ∉ zone
  /-- what is on the stack where `gmtime_r` fails -/
  stack : Tm

/-- `timer_ticks() / TIMER_RESOLUTION`. -/
def Clock.seconds (clock : Clock) : Int := clock.ticks.tdiv timerResolution

/-- `timer_time`. -/
def Clock.time (clock : Clock) : Int := clock.start + clock.seconds

/-- The date that `build_strftime` pushes. -/
def Clock.date (clock : Clock) (t : Int) (utcMark : Bool) : Bytes :=
  strftime utcMark ((gmtimeR t).getD clock.stack)

/-- The time zone as `build_iq_time` is to write it: `+0300 => +03:00`. -/
def Clock.tzo (clock : Clock) : Bytes :=
  if clock.zone.length = 5 then clock.zone.take 3 ++ lit ":" ++ clock.zone.drop 3 else clock.zone

/-! ## The packet -/

/-- `struct utsname`. -/
structure Utsname where
  sysname : Bytes
  machine : Bytes
  release : Bytes

/-- `StanzaQueueStats`. -/
structure StanzaQueueStats where
  overflows : Int
  underflows : Int
  reallocEnlarges : Int
  reallocShortens : Int
  mallocs : Int
  dataPushes : Int
  dataPops : Int
  freePushes : Int
  freePops : Int

structure RingBufferStats where
  overflows : Int
  underflows : Int
  reads : Int
  writes : Int

/--
A packet as `builder_build` receives it: with the host that `worker_send` fills in, the time of a
delayed stanza, and the members of `sys_data` that only the replies of the component read.
-/
structure OutgoingPacket extends BuilderPacket where
  fromHost : Buffer
  delay : Int
  uname : Utsname
  stats : Option (StanzaQueueStats × RingBufferStats)

/-! ## The replies of the component -/

/-- `BUF_PUSH_STAT`. -/
def pushStat (name : String) (value : Int) (units : String) : Bytes :=
  lit ("<stat name='" ++ name ++ "' units='" ++ units ++ "' value='") ++ lit (toString value) ++
    lit "'/>"

/-- `build_stats`. -/
def buildStats (clock : Clock) (queue : StanzaQueueStats) (ringbuffer : RingBufferStats) : Bytes :=
  pushStat "queue/overflows" queue.overflows "times" ++
    pushStat "queue/underflows" queue.underflows "times" ++
    pushStat "queue/realloc_enlarges" queue.reallocEnlarges "times" ++
    pushStat "queue/realloc_shortens" queue.reallocShortens "times" ++
    pushStat "queue/mallocs" queue.mallocs "times" ++
    pushStat "queue/data_pushes" queue.dataPushes "times" ++
    pushStat "queue/data_pops" queue.dataPops "times" ++
    pushStat "queue/free_pushes" queue.freePushes "times" ++
    pushStat "queue/free_pops" queue.freePops "times" ++
    pushStat "ringbuffer/underflows" ringbuffer.underflows "times" ++
    pushStat "ringbuffer/overflows" ringbuffer.overflows "times" ++
    pushStat "ringbuffer/reads" ringbuffer.reads "times" ++
    pushStat "ringbuffer/writes" ringbuffer.writes "times" ++
    pushStat "time/uptime" clock.seconds "seconds"

/-- What `build_iq_time` is to write; `BUILD_IQ_TIME` has its name. -/
def buildIqTimeText (clock : Clock) : Bytes :=
  lit "<tzo>" ++ clock.tzo ++ lit "</tzo><utc>" ++ clock.date clock.time true ++ lit "Z" ++
    lit "</utc>"

/-- What the component says of itself to `disco#info`. -/
def componentInfo : Bytes :=
  lit "<identity category='conference' type='text' name='Chatrooms'/>" ++
    lit "<feature var='http://jabber.org/protocol/disco#info'/>" ++
    lit "<feature var='http://jabber.org/protocol/disco#items'/>" ++
    lit "<feature var='http://jabber.org/protocol/muc'/>" ++
    lit "<feature var='jabber:iq:last'/>" ++
    lit "<feature var='jabber:iq:version'/>" ++
    lit "<feature var='urn:xmpp:time'/>"

/-- The version reply. -/
def versionReply (uname : Utsname) : Bytes :=
  lit ("<query xmlns='jabber:iq:version'>" ++
      "<name>Mukite http://mukite.org/</name><version>git</version><os>") ++ uname.sysname ++
    lit "/" ++ uname.machine ++ lit " " ++ uname.release ++ lit "</os></query>"

/-- The card of the component. -/
def vcardReply : Bytes :=
  lit "<vCard xmlns='vcard-temp'><FN>Mukite XMPP Component</FN>" ++
    lit "<URL>http://mukite.org/</URL></vCard>"

/-- What `builder_build` adds to an IQ that is not an error. -/
def iqReply (clock : Clock) (packet : OutgoingPacket) : Option Bytes :=
  if packet.iqType = buildIqVersion then some (versionReply packet.uname)
  else if packet.iqType = buildIqLast then
    some (lit "<query xmlns='jabber:iq:last' seconds='" ++ lit (toString clock.seconds) ++
      lit "'/>")
  else if packet.iqType = buildIqTime then
    some (lit "<time xmlns='urn:xmpp:time'>" ++ buildIqTimeText clock ++ lit "</time>")
  else if packet.iqType = buildIqStats then
    packet.stats.map (fun stats =>
      lit "<query xmlns='http://jabber.org/protocol/stats'>" ++
        buildStats clock stats.1 stats.2 ++ lit "</query>")
  else if packet.iqType = buildIqDiscoInfo then
    some (lit "<query xmlns='http://jabber.org/protocol/disco#info'>" ++ componentInfo ++
      lit "</query>")
  else if packet.iqType = buildIqDiscoItems then
    some (lit "<query xmlns='http://jabber.org/protocol/disco#items'>" ++ lit "</query>")
  else if packet.iqType = buildIqVcard then some vcardReply
  else if packet.iqType = buildIqRoomDiscoInfo ∨ packet.iqType = buildIqRoomDiscoItems ∨
      packet.iqType = buildIqRoomAffiliations ∨ packet.iqType = buildIqRoomConfig then
    roomReply (bptBytes packet.fromHost) packet.toBuilderPacket
  else some []

/-- What `builder_build` adds to the user data. -/
def addition (clock : Clock) (packet : OutgoingPacket) : Option Bytes :=
  if packet.name = .presence ∨ packet.type = stanzaError then
    presenceAddition packet.toBuilderPacket
  else if packet.name = .iq then iqReply clock packet
  else some []

/-- The mark of a delayed stanza, in both its forms. -/
def delayText (clock : Clock) (packet : OutgoingPacket) : Bytes :=
  if packet.delay = 0 then []
  else
    lit "<delay xmlns='urn:xmpp:delay' from='" ++
      (match packet.fromNode with
        | none => []
        | some node => node ++ lit "@") ++
      bptBytes packet.fromHost ++ lit "' stamp='" ++ clock.date packet.delay true ++ lit "Z" ++
      lit "'/><x xmlns='jabber:x:delay' stamp='" ++ clock.date packet.delay false ++ lit "'/>"

/-- **The full text of a packet.** -/
def rendering (clock : Clock) (packet : OutgoingPacket) : Option Bytes :=
  (addition clock packet).map (fun addition =>
    builderHead (bptBytes packet.fromHost) packet.toBuilderPacket ++
      (bptBytes packet.userData ++ addition) ++ delayText clock packet ++ endTag packet.name)

end Mukite
