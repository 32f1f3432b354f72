import Mukite.Pushes

/-!
# Nothing is cut off

The builder checks the room for a stanza at every push, and the checks differ: a number may fill
the buffer and lose its last digit to the terminator, a date is refused although it would fit. Both
are always followed by a literal, so neither is ever sent: a stanza is built when the buffer holds
its whole text, and only then.

The one exception is not a matter of room. The offset of the time zone is put together in a buffer
of its own by an overlapping `memcpy`, and what that leaves there is pushed: with a copy in two
moves, `+00:000` and whatever follows up to the next terminator (`zoneText_moving`).

* `texts_pieces`: the pushes say what the packet says.
* `sealed_pieces`: something is pushed behind every number and every date.
* `builderBuildInto_exact_iff`: what is built, for every packet and every buffer.
-/

namespace Mukite

namespace Pushes

open Output

/-! ## What the pushes say -/

@[simp] theorem texts_bufPush (data : Bytes) : texts (bufPush data) = data := by
  simp [bufPush, Piece.text]

@[simp] theorem texts_bufPushLiteral (data : String) : texts (bufPushLiteral data) = lit data :=
  texts_bufPush _

@[simp] theorem texts_bufPushBpt (data : Buffer) : texts (bufPushBpt data) = bptBytes data :=
  texts_bufPush _

@[simp] theorem texts_bufPushIfbpt (data : Buffer) : texts (bufPushIfbpt data) = bptBytes data := by
  cases data with
  | none => rfl
  | some data => exact texts_bufPush data

@[simp] theorem texts_bufPushFmt (value : Int) : texts (bufPushFmt value) = lit (toString value) :=
  texts_bufPush _

@[simp] theorem texts_bufPushBool (value : Bool) : texts (bufPushBool value) = pushBool value := by
  cases value <;> exact texts_bufPushLiteral _

@[simp] theorem texts_bufPushStatus (statusCodes : Nat) :
    texts (bufPushStatus statusCodes) = buildStatus statusCodes := by
  unfold bufPushStatus buildStatus
  cases statusNames.find? (fun status => statusCodes &&& status.1 != 0) with
  | none => rfl
  | some status => exact texts_bufPushLiteral _

@[simp] theorem texts_bufPushStat (name : String) (value : Int) (units : String) :
    texts (bufPushStat name value units) = pushStat name value units := by
  simp [bufPushStat, pushStat]

@[simp] theorem texts_bufPushFeature (test : Bool) (ifTrue ifFalse : String) :
    texts (bufPushFeature test ifTrue ifFalse) = pushFeature test ifTrue ifFalse :=
  texts_bufPushLiteral _

@[simp] theorem texts_bufPushField (type label var : String) (data appendix : List Push) :
    texts (bufPushField type label var data appendix)
      = pushField type label var (texts data) (texts appendix) := by
  simp [bufPushField, pushField]

theorem texts_flatten {parts : List (List Push)} :
    texts parts.flatten = (parts.map texts).flatten := by
  induction parts with
  | nil => rfl
  | cons part rest ih => rw [List.flatten_cons, texts_append, ih, List.map_cons, List.flatten_cons]

theorem texts_ite {c : Prop} [Decidable c] (pieces more : List Push) :
    texts (if c then pieces else more) = if c then texts pieces else texts more := by
  split <;> rfl

theorem texts_buildPresenceMucadm (item : MucAdminItem) (statusCodes : Nat) (resume : Buffer) :
    (buildPresenceMucadm item statusCodes resume).map texts
      = Mukite.buildPresenceMucadm item statusCodes resume := by
  have htag : texts (bufPushLiteral ("<x xmlns='http://jabber.org/protocol/muc#user'>" ++
      "<item affiliation='")) = mucadmTag ++ lit "<item affiliation='" := by
    rw [texts_bufPushLiteral, lit_append]
    rfl
  unfold buildPresenceMucadm Mukite.buildPresenceMucadm
  cases affiliationName item.affiliation with
  | none => rfl
  | some affiliation =>
    cases roleName item.role with
    | none => rfl
    | some role =>
      obtain ⟨_, _, jid, nick, reasonNode⟩ := item
      cases nick <;> cases reasonNode <;>
        simp only [Option.bind_eq_bind, Option.bind_some, Option.pure_def, Option.map_some,
          texts_append, htag, texts_bufPush, texts_bufPushLiteral, texts_bufPushStatus,
          texts_bufPushIfbpt, texts_ite, texts_nil, List.append_assoc]

theorem texts_buildStats (clock : Clock) (queue : StanzaQueueStats) (ringbuffer : RingBufferStats) :
    texts (buildStats clock queue ringbuffer) = Mukite.buildStats clock queue ringbuffer := by
  unfold buildStats Mukite.buildStats
  simp only [texts_append, texts_bufPushStat]

theorem texts_buildRoomItems (room : Room) (hostname : Buffer) :
    texts (buildRoomItems room hostname) = Mukite.buildRoomItems room (bptBytes hostname) := by
  unfold buildRoomItems Mukite.buildRoomItems
  rw [texts_flatten, List.map_map]
  refine congrArg List.flatten (List.map_congr_left fun current _ => ?_)
  simp

theorem texts_buildRoomInfo (room : Room) :
    texts (buildRoomInfo room) = Mukite.buildRoomInfo room := by
  unfold buildRoomInfo Mukite.buildRoomInfo
  simp only [texts_append, texts_bufPushLiteral, texts_bufPushFeature, texts_bufPushBpt, texts_ite,
    texts_nil]

theorem texts_buildRoomAffiliations (items : List Affiliation) (affiliation : Int) :
    (buildRoomAffiliations items affiliation).map texts
      = Mukite.buildRoomAffiliations items affiliation := by
  unfold buildRoomAffiliations Mukite.buildRoomAffiliations
  split
  · rfl
  · rw [Option.map_map]
    refine Option.map_congr fun name _ => ?_
    show texts _ = _
    rw [texts_flatten, List.map_map]
    refine congrArg List.flatten (List.map_congr_left ?_)
    rintro ⟨jid, reasonNode⟩ _
    cases reasonNode <;> simp

theorem texts_buildRoomConfig (room : Room) :
    texts (buildRoomConfig room) = Mukite.buildRoomConfig room := by
  unfold buildRoomConfig Mukite.buildRoomConfig
  simp only [texts_append, texts_bufPush, texts_bufPushLiteral, texts_bufPushBpt,
    texts_bufPushField, texts_bufPushBool, texts_bufPushFmt, texts_nil, texts_ite]

theorem texts_buildError (error : XMPPError) :
    texts (buildError error) = Mukite.buildError error := by
  unfold buildError Mukite.buildError
  simp only [texts_append, texts_bufPush, texts_bufPushLiteral, lit_append, List.append_assoc]

@[simp] theorem texts_buildStrftime (clock : Clock) (t : Int) (utcMark : Bool) :
    texts (buildStrftime clock t utcMark)
      = clock.date t utcMark ++ if utcMark then lit "Z" else [] := by
  simp [buildStrftime, Piece.text, texts_ite]

theorem texts_buildIqTimeText {stray : Stray} {clock : Clock}
    (h : stray.zoneText clock = some clock.tzo) :
    (buildIqTimeText stray clock).map texts = some (Mukite.buildIqTimeText clock) := by
  unfold buildIqTimeText Mukite.buildIqTimeText
  rw [h]
  simp

theorem texts_fromPieces (packet : OutgoingPacket) :
    texts (fromPieces packet) = fromText (bptBytes packet.fromHost) packet.toBuilderPacket := by
  unfold fromPieces fromText
  cases packet.fromNode <;> cases packet.fromNick <;> simp

theorem texts_headPieces (packet : OutgoingPacket) :
    texts (headPieces packet) = builderHead (bptBytes packet.fromHost) packet.toBuilderPacket := by
  have hstart : texts (if packet.name = .unset then [] else bufPush (tagStart packet.name))
      = tagStart packet.name := by
    split
    · next h =>
      rw [h]
      rfl
    · exact texts_bufPush _
  unfold headPieces builderHead
  simp only [texts_append, hstart, texts_fromPieces, texts_bufPushIfbpt, texts_bufPushLiteral,
    texts_ite, texts_bufPush, texts_nil]

theorem texts_presenceAddition (packet : OutgoingPacket) :
    (presenceAddition packet).map texts = Mukite.presenceAddition packet.toBuilderPacket := by
  unfold presenceAddition Mukite.presenceAddition
  by_cases ht : packet.type = stanzaError
  · rw [if_pos ht, if_pos ht]
    cases packet.sysData with
    | error error => exact congrArg some (texts_buildError error)
    | _ => rfl
  · rw [if_neg ht, if_neg ht]
    cases packet.sysData with
    | presence item statusCodes resume => exact texts_buildPresenceMucadm item statusCodes resume
    | _ => rfl

theorem texts_query (xmlns : String) (content : List Push) : texts (query xmlns content)
    = lit ("<query xmlns='" ++ xmlns ++ "'>") ++ texts content ++ lit "</query>" := by
  unfold query
  rw [texts_append, texts_append, texts_bufPushLiteral, texts_bufPushLiteral]

theorem texts_versionReply (uname : Utsname) :
    texts (bufPushLiteral ("<query xmlns='jabber:iq:version'>" ++
        "<name>Mukite http://mukite.org/</name><version>git</version><os>") ++
      bufPush uname.sysname ++ bufPushLiteral "/" ++ bufPush uname.machine ++
      bufPushLiteral " " ++ bufPush uname.release ++ bufPushLiteral "</os></query>")
      = versionReply uname := by
  unfold versionReply
  simp only [texts_append, texts_bufPush, texts_bufPushLiteral]

/-- The replies about a room, as they are pushed. -/
theorem texts_roomReply {stray : Stray} {clock : Clock} {packet : OutgoingPacket}
    (h : packet.iqType = buildIqRoomDiscoInfo ∨ packet.iqType = buildIqRoomDiscoItems ∨
      packet.iqType = buildIqRoomAffiliations ∨ packet.iqType = buildIqRoomConfig) :
    (iqReply stray clock packet).map texts
      = roomReply (bptBytes packet.fromHost) packet.toBuilderPacket := by
  unfold iqReply roomReply
  rcases h with h | h | h | h
  · cases hd : packet.sysData <;> simp +decide [h, texts_query, texts_buildRoomInfo]
  · cases hd : packet.sysData <;> simp +decide [h, texts_query, texts_buildRoomItems]
  · cases hd : packet.sysData with
    | mucItems affiliation items =>
      simp +decide only [h, reduceIte, ← texts_buildRoomAffiliations, Option.map_map]
      exact congrArg (fun f => (buildRoomAffiliations items affiliation).map f)
        (funext (texts_query xmlnsMucAdmin))
    | _ => simp +decide [h]
  · cases hd : packet.sysData <;> simp +decide [h, texts_query, texts_buildRoomConfig]

theorem texts_iqReply {stray : Stray} {clock : Clock} {packet : OutgoingPacket}
    (hzone : packet.iqType = buildIqTime → stray.zoneText clock = some clock.tzo) :
    (iqReply stray clock packet).map texts = Mukite.iqReply clock packet := by
  by_cases hroom : packet.iqType = buildIqRoomDiscoInfo ∨ packet.iqType = buildIqRoomDiscoItems ∨
      packet.iqType = buildIqRoomAffiliations ∨ packet.iqType = buildIqRoomConfig
  · rw [texts_roomReply hroom]
    unfold Mukite.iqReply
    rcases hroom with h | h | h | h <;> simp +decide [h]
  · obtain ⟨hinfo, hitems, haffs, hconfig⟩ : packet.iqType ≠ buildIqRoomDiscoInfo ∧
        packet.iqType ≠ buildIqRoomDiscoItems ∧ packet.iqType ≠ buildIqRoomAffiliations ∧
        packet.iqType ≠ buildIqRoomConfig := by simpa [not_or] using hroom
    unfold iqReply Mukite.iqReply
    rw [if_neg hroom, if_neg hinfo, if_neg hitems, if_neg haffs, if_neg hconfig]
    by_cases hversion : packet.iqType = buildIqVersion
    · rw [if_pos hversion, if_pos hversion]
      exact congrArg some (texts_versionReply packet.uname)
    rw [if_neg hversion, if_neg hversion]
    by_cases hlast : packet.iqType = buildIqLast
    · rw [if_pos hlast, if_pos hlast]
      simp
    rw [if_neg hlast, if_neg hlast]
    by_cases htime : packet.iqType = buildIqTime
    · rw [if_pos htime, if_pos htime]
      have htext := texts_buildIqTimeText (hzone htime)
      obtain ⟨time, hpushed, htext⟩ := Option.map_eq_some_iff.mp htext
      simp [hpushed, ← htext]
    rw [if_neg htime, if_neg htime]
    by_cases hstats : packet.iqType = buildIqStats
    · rw [if_pos hstats, if_pos hstats]
      cases packet.stats with
      | none => rfl
      | some stats => simp [texts_query, texts_buildStats]
    rw [if_neg hstats, if_neg hstats]
    by_cases hself : packet.iqType = buildIqDiscoInfo
    · rw [if_pos hself, if_pos hself]
      simp [texts_query]
    rw [if_neg hself, if_neg hself]
    by_cases hrooms : packet.iqType = buildIqDiscoItems
    · rw [if_pos hrooms, if_pos hrooms]
      simp [texts_query]
    rw [if_neg hrooms, if_neg hrooms]
    by_cases hvcard : packet.iqType = buildIqVcard
    · rw [if_pos hvcard, if_pos hvcard]
      simp
    rw [if_neg hvcard, if_neg hvcard]
    rfl

theorem texts_addition {stray : Stray} {clock : Clock} {packet : OutgoingPacket}
    (hzone : packet.name = .iq → packet.type ≠ stanzaError → packet.iqType = buildIqTime →
      stray.zoneText clock = some clock.tzo) :
    (addition stray clock packet).map texts = Mukite.addition clock packet := by
  unfold addition Mukite.addition
  by_cases hp : packet.type = stanzaError ∨ packet.name = .presence
  · rw [if_pos hp, if_pos (Or.comm.mp hp)]
    exact texts_presenceAddition packet
  · rw [if_neg hp, if_neg (fun h => hp (Or.comm.mp h))]
    split
    · next hname => exact texts_iqReply (hzone hname fun ht => hp (.inl ht))
    · rfl

theorem texts_delayPieces (clock : Clock) (packet : OutgoingPacket) :
    texts (delayPieces clock packet) = delayText clock packet := by
  unfold delayPieces delayText
  split
  · rfl
  · cases packet.fromNode <;> simp

/-- **The pushes of a packet are its text**, if the offset of the time zone is pushed as such. -/
theorem texts_pieces {stray : Stray} {clock : Clock} {packet : OutgoingPacket}
    (hzone : packet.name = .iq → packet.type ≠ stanzaError → packet.iqType = buildIqTime →
      stray.zoneText clock = some clock.tzo) :
    (pieces stray clock packet).map texts = rendering clock packet := by
  have hend : texts (if packet.name = .unset then [] else bufPush (endTag packet.name))
      = endTag packet.name := by
    split
    · next h =>
      rw [h]
      rfl
    · exact texts_bufPush _
  unfold pieces rendering
  rw [← texts_addition hzone, Option.map_map, Option.map_map]
  refine Option.map_congr fun addition _ => ?_
  simp [hend, texts_headPieces, texts_delayPieces]

/-! ## What is pushed behind a number or a date -/

section Sealed

variable {k : Nat}

@[simp] theorem sealed_bufPush (data : Bytes) : Sealed k (bufPush data) := .copied .nil

@[simp] theorem sealed_bufPushLiteral (data : String) : Sealed k (bufPushLiteral data) := .copied .nil

@[simp] theorem sealed_bufPushBpt (data : Buffer) : Sealed k (bufPushBpt data) := .copied .nil

@[simp] theorem sealed_bufPushIfbpt (data : Buffer) : Sealed k (bufPushIfbpt data) := by
  cases data with
  | none => exact .nil
  | some data => exact sealed_bufPush data

@[simp] theorem sealed_bufPushFmt (value : Int) : Sealed k (bufPushFmt value) ↔ 0 < k := by
  simp [bufPushFmt]

@[simp] theorem sealed_bufPushBool (value : Bool) : Sealed k (bufPushBool value) := by
  cases value <;> exact sealed_bufPushLiteral _

@[simp] theorem sealed_bufPushStatus (statusCodes : Nat) : Sealed k (bufPushStatus statusCodes) := by
  unfold bufPushStatus
  split
  · exact .nil
  · exact sealed_bufPushLiteral _

/-- A literal that is not empty. -/
theorem length_lit_pos {s : String} {more : Nat} (h : lit s ≠ []) :
    0 < (texts (bufPushLiteral s)).length + more := by
  rw [texts_bufPushLiteral]
  exact Nat.add_pos_left (List.length_pos_iff.mpr h) _

@[simp] theorem sealed_bufPushStat (name : String) (value : Int) (units : String) :
    Sealed k (bufPushStat name value units) := by
  unfold bufPushStat
  simp only [sealed_append, sealed_bufPushLiteral, sealed_bufPushFmt, true_and, and_true]
  exact length_lit_pos (by decide)

@[simp] theorem sealed_bufPushFeature (test : Bool) (ifTrue ifFalse : String) :
    Sealed k (bufPushFeature test ifTrue ifFalse) := sealed_bufPushLiteral _

/-- The value of a field has its end tag behind it. -/
theorem sealed_bufPushField {type label var : String} {data appendix : List Push}
    (hdata : Sealed 1 data) (happendix : Sealed 0 appendix) :
    Sealed k (bufPushField type label var data appendix) := by
  unfold bufPushField
  simp only [sealed_append, sealed_bufPushLiteral, true_and, and_true]
  exact ⟨hdata.mono (length_lit_pos (by decide)), happendix.mono (Nat.zero_le _)⟩

theorem sealed_ite {c : Prop} [Decidable c] {pieces more : List Push} (h : Sealed k pieces)
    (h' : Sealed k more) : Sealed k (if c then pieces else more) := by
  split
  · exact h
  · exact h'

theorem sealed_buildPresenceMucadm {item : MucAdminItem} {statusCodes : Nat} {resume : Buffer}
    {pieces : List Push} (h : buildPresenceMucadm item statusCodes resume = some pieces) :
    Sealed k pieces := by
  unfold buildPresenceMucadm at h
  obtain ⟨affiliation, -, h⟩ := Option.bind_eq_some_iff.mp h
  obtain ⟨role, -, h⟩ := Option.bind_eq_some_iff.mp h
  cases h
  obtain ⟨_, _, jid, nick, reasonNode⟩ := item
  have hjid : ∀ n, Sealed n (if jidEmpty jid then []
      else bufPushLiteral "' jid='" ++ bufPush (jidStr jid)) :=
    fun n => sealed_ite .nil (by simp [sealed_append])
  cases nick <;> cases reasonNode <;> simp [sealed_append, hjid]

theorem sealed_buildRoomItems (room : Room) (hostname : Buffer) :
    Sealed k (buildRoomItems room hostname) := by
  refine sealed_flatten fun part hpart => ?_
  obtain ⟨current, -, rfl⟩ := List.mem_map.mp hpart
  simp [sealed_append]

theorem sealed_buildRoomInfo (room : Room) : Sealed k (buildRoomInfo room) := by
  have hname : Sealed 0 (if bptBlank room.title then bufPushBpt room.node
      else bufPushBpt room.title) := sealed_ite (sealed_bufPushBpt _) (sealed_bufPushBpt _)
  have hitems : Sealed 0 (if room.hasFlag mucFlagPublicparticipants then
      bufPushLiteral "<feature var='http://jabber.org/protocol/disco#items'/>" else []) :=
    sealed_ite (sealed_bufPushLiteral _) .nil
  unfold buildRoomInfo
  repeat' with_reducible refine Sealed.append ?_ ?_
  all_goals with_reducible first
    | exact sealed_bufPushLiteral _
    | exact sealed_bufPushFeature _ _ _
    | exact hname
    | exact hitems

theorem sealed_buildRoomAffiliations {items : List Affiliation} {affiliation : Int}
    {pieces : List Push} (h : buildRoomAffiliations items affiliation = some pieces) :
    Sealed k pieces := by
  unfold buildRoomAffiliations at h
  split at h
  · cases h
    exact .nil
  · obtain ⟨name, -, rfl⟩ := Option.map_eq_some_iff.mp h
    refine sealed_flatten fun part hpart => ?_
    obtain ⟨⟨jid, reasonNode⟩, -, rfl⟩ := List.mem_map.mp hpart
    cases reasonNode <;> simp [sealed_append]

theorem sealed_buildRoomConfig (room : Room) : Sealed k (buildRoomConfig room) := by
  have htext : ∀ type label var data, Sealed 0 (bufPushField type label var (bufPushBpt data) []) :=
    fun _ _ _ _ => sealed_bufPushField (sealed_bufPushBpt _) .nil
  have hbool : ∀ label var value, Sealed 0 (bufPushField "boolean" label var
      (bufPushBool value) []) :=
    fun _ _ value => sealed_bufPushField (sealed_bufPushBool value) .nil
  refine Sealed.mono ?_ (Nat.zero_le k)
  unfold buildRoomConfig
  dsimp only
  -- one goal for each field
  repeat' with_reducible refine Sealed.append ?_ ?_
  all_goals with_reducible first
    | exact sealed_bufPushLiteral _
    | exact sealed_bufPushBpt _
    | exact htext _ _ _ _
    | exact hbool _ _ _
    | refine sealed_bufPushField ?_ ?_
  · exact sealed_bufPushLiteral _
  · exact sealed_nil
  · exact (sealed_bufPushFmt _).mpr Nat.zero_lt_one
  · exact sealed_bufPush _
  · exact sealed_ite (sealed_bufPushLiteral _) (sealed_bufPushLiteral _)
  · exact sealed_bufPush _

theorem date_ne_nil (clock : Clock) (t : Int) (utcMark : Bool) : clock.date t utcMark ≠ [] := by
  have hmark : lit "T" ≠ [] := by decide
  unfold Clock.date strftime
  simp only [lit_append]
  intro h
  simp only [List.append_eq_nil_iff] at h
  exact hmark h.1.1.1.1.1.2

/-- A date with the mark of UTC has it behind it. -/
theorem sealed_buildStrftime_utc (clock : Clock) (t : Int) :
    Sealed k (buildStrftime clock t true) := by
  unfold buildStrftime
  rw [if_pos rfl, sealed_append]
  refine ⟨.stamped (date_ne_nil clock t true) ?_ .nil, sealed_bufPushLiteral _⟩
  exact Nat.add_pos_right _ (length_lit_pos (by decide))

theorem sealed_buildStrftime_bare (clock : Clock) (t : Int) (h : 0 < k) :
    Sealed k (buildStrftime clock t false) :=
  .stamped (date_ne_nil clock t false) (Nat.add_pos_right _ h) .nil

theorem sealed_buildError (error : XMPPError) : Sealed k (buildError error) := by
  simp [buildError, sealed_append]

theorem sealed_fromPieces (packet : OutgoingPacket) : Sealed k (fromPieces packet) := by
  unfold fromPieces
  cases packet.fromNode <;> cases packet.fromNick <;> simp [sealed_append]

theorem sealed_headPieces (packet : OutgoingPacket) : Sealed k (headPieces packet) := by
  have hto : Sealed 0 (if jidEmpty packet.toJid then []
      else bufPushLiteral "' to='" ++ bufPush (jidStr packet.toJid)) :=
    sealed_ite .nil ((sealed_bufPushLiteral _).append (sealed_bufPush _))
  have htype : Sealed 0 (if packet.type = 0 then []
      else bufPushLiteral "' type='" ++ bufPush (typeName packet.name packet.type)) :=
    sealed_ite .nil ((sealed_bufPushLiteral _).append (sealed_bufPush _))
  have hstart : Sealed 0 (if packet.name = .unset then [] else bufPush (tagStart packet.name)) :=
    sealed_ite .nil (sealed_bufPush _)
  exact (((((hstart.append (sealed_bufPushIfbpt _)).append (sealed_bufPushLiteral _)).append
    (sealed_fromPieces packet)).append hto).append htype).append (sealed_bufPushLiteral _)

theorem sealed_presenceAddition {packet : OutgoingPacket} {pieces : List Push}
    (h : presenceAddition packet = some pieces) : Sealed k pieces := by
  unfold presenceAddition at h
  split at h
  · split at h
    · cases h
      exact sealed_buildError _
    · cases h
      exact .nil
    · cases h
  · split at h
    · exact sealed_buildPresenceMucadm h
    · cases h

theorem sealed_query {xmlns : String} {content : List Push} (h : Sealed 0 content) :
    Sealed k (query xmlns content) := by
  simp only [query, sealed_append, sealed_bufPushLiteral, true_and, and_true]
  exact h.mono (Nat.zero_le _)

theorem sealed_iqReply {stray : Stray} {clock : Clock} {packet : OutgoingPacket}
    {pieces : List Push} (h : iqReply stray clock packet = some pieces) : Sealed k pieces := by
  refine Sealed.mono ?_ (Nat.zero_le k)
  unfold iqReply at h
  by_cases hversion : packet.iqType = buildIqVersion
  · rw [if_pos hversion] at h
    cases h
    simp [sealed_append]
  rw [if_neg hversion] at h
  by_cases hlast : packet.iqType = buildIqLast
  · rw [if_pos hlast] at h
    cases h
    simp only [sealed_append, sealed_bufPushLiteral, sealed_bufPushFmt, true_and, and_true]
    exact length_lit_pos (by decide)
  rw [if_neg hlast] at h
  by_cases htime : packet.iqType = buildIqTime
  · rw [if_pos htime] at h
    obtain ⟨time, ht, rfl⟩ := Option.map_eq_some_iff.mp h
    obtain ⟨tzo, -, rfl⟩ := Option.map_eq_some_iff.mp ht
    simp [sealed_append, sealed_buildStrftime_utc]
  rw [if_neg htime] at h
  by_cases hstats : packet.iqType = buildIqStats
  · rw [if_pos hstats] at h
    obtain ⟨stats, -, rfl⟩ := Option.map_eq_some_iff.mp h
    refine sealed_query ?_
    unfold buildStats
    repeat' with_reducible refine Sealed.append ?_ ?_
    all_goals exact sealed_bufPushStat _ _ _
  rw [if_neg hstats] at h
  by_cases hself : packet.iqType = buildIqDiscoInfo
  · rw [if_pos hself] at h
    cases h
    exact sealed_query (sealed_bufPush _)
  rw [if_neg hself] at h
  by_cases hinfo : packet.iqType = buildIqRoomDiscoInfo
  · rw [if_pos hinfo] at h
    split at h <;> cases h
    exact sealed_query (sealed_buildRoomInfo _)
  rw [if_neg hinfo] at h
  by_cases hrooms : packet.iqType = buildIqDiscoItems
  · rw [if_pos hrooms] at h
    cases h
    exact sealed_query sealed_nil
  rw [if_neg hrooms] at h
  by_cases hitems : packet.iqType = buildIqRoomDiscoItems
  · rw [if_pos hitems] at h
    split at h <;> cases h
    exact sealed_query (sealed_buildRoomItems _ _)
  rw [if_neg hitems] at h
  by_cases haffs : packet.iqType = buildIqRoomAffiliations
  · rw [if_pos haffs] at h
    split at h
    · obtain ⟨items, hitems, rfl⟩ := Option.map_eq_some_iff.mp h
      exact sealed_query (sealed_buildRoomAffiliations hitems)
    · cases h
  rw [if_neg haffs] at h
  by_cases hconfig : packet.iqType = buildIqRoomConfig
  · rw [if_pos hconfig] at h
    split at h <;> cases h
    exact sealed_query (sealed_buildRoomConfig _)
  rw [if_neg hconfig] at h
  by_cases hvcard : packet.iqType = buildIqVcard
  · rw [if_pos hvcard] at h
    cases h
    exact sealed_bufPush _
  · rw [if_neg hvcard] at h
    cases h
    exact sealed_nil

theorem sealed_delayPieces (clock : Clock) (packet : OutgoingPacket) :
    Sealed k (delayPieces clock packet) := by
  unfold delayPieces
  refine sealed_ite .nil ?_
  simp only [sealed_append, sealed_bufPushLiteral, sealed_bufPushBpt, sealed_buildStrftime_utc,
    true_and, and_true]
  refine ⟨?_, sealed_buildStrftime_bare clock packet.delay (@length_lit_pos "'/>" k (by decide))⟩
  cases packet.fromNode with
  | none => exact .nil
  | some node => simp [sealed_append]

/-- **Something is pushed behind every number and every date.** -/
theorem sealed_pieces {stray : Stray} {clock : Clock} {packet : OutgoingPacket}
    {pushed : List Push} (h : pieces stray clock packet = some pushed) : Sealed 0 pushed := by
  obtain ⟨added, hadded, rfl⟩ := Option.map_eq_some_iff.mp h
  have haddition : Sealed 0 added := by
    unfold addition at hadded
    split at hadded
    · exact sealed_presenceAddition hadded
    · split at hadded
      · exact sealed_iqReply hadded
      · cases hadded
        exact .nil
  have hhead : Sealed 0 (headPieces packet) := sealed_headPieces packet
  have hend : Sealed 0 (if packet.name = .unset then [] else bufPush (endTag packet.name)) :=
    sealed_ite sealed_nil (sealed_bufPush _)
  exact (((hhead.append (sealed_bufPushIfbpt _)).append haddition).append
    (sealed_delayPieces clock packet)).append hend

end Sealed

end Pushes

/-! ## What can be built -/

/-- The index of an affiliation. -/
def ValidAffiliation (affiliation : Int) : Prop :=
  affilOutcast ≤ affiliation ∧ affiliation ≤ affilOwner

/-- The index of a role. -/
def ValidRole (role : Int) : Prop := roleNone ≤ role ∧ role ≤ roleModerator

theorem affiliationName_isSome {affiliation : Int} (h : ValidAffiliation affiliation) :
    ∃ name, affiliationName affiliation = some name := by
  obtain ⟨hlo, hhi⟩ := h
  have hcases : affiliation = 0 ∨ affiliation = 1 ∨ affiliation = 2 ∨ affiliation = 3 ∨
      affiliation = 4 := by
    unfold affilOutcast at hlo
    unfold affilOwner at hhi
    omega
  rcases hcases with rfl | rfl | rfl | rfl | rfl <;> exact ⟨_, rfl⟩

theorem roleName_isSome {role : Int} (h : ValidRole role) : ∃ name, roleName role = some name := by
  obtain ⟨hlo, hhi⟩ := h
  have hcases : role = 0 ∨ role = 1 ∨ role = 2 ∨ role = 3 := by
    unfold roleNone at hlo
    unfold roleModerator at hhi
    omega
  rcases hcases with rfl | rfl | rfl | rfl <;> exact ⟨_, rfl⟩

/--
The indices of a packet are those of the tables, and the member of `sys_data` that is read is the
one that was set.
-/
structure ValidPacket (packet : OutgoingPacket) : Prop where
  error : packet.type = stanzaError →
    packet.sysData = .zero ∨ ∃ error, packet.sysData = .error error
  presence : packet.type ≠ stanzaError → packet.name = .presence →
    ∃ item statusCodes resume, packet.sysData = .presence item statusCodes resume ∧
      ValidAffiliation item.affiliation ∧ ValidRole item.role
  room : packet.type ≠ stanzaError → packet.name = .iq →
    packet.iqType = buildIqRoomDiscoInfo ∨ packet.iqType = buildIqRoomDiscoItems ∨
      packet.iqType = buildIqRoomConfig → ∃ room, packet.sysData = .room room
  items : packet.type ≠ stanzaError → packet.name = .iq →
    packet.iqType = buildIqRoomAffiliations →
    ∃ affiliation items, packet.sysData = .mucItems affiliation items ∧ ValidAffiliation affiliation
  stats : packet.type ≠ stanzaError → packet.name = .iq → packet.iqType = buildIqStats →
    ∃ stats, packet.stats = some stats

section ValidPacket

variable {clock : Clock} {packet : OutgoingPacket}

theorem ValidPacket.presenceAddition (h : ValidPacket packet)
    (hp : packet.name = .presence ∨ packet.type = stanzaError) :
    ∃ added, presenceAddition packet.toBuilderPacket = some added := by
  unfold Mukite.presenceAddition
  by_cases ht : packet.type = stanzaError
  · rw [if_pos ht]
    rcases h.error ht with hd | ⟨error, hd⟩ <;> rw [hd] <;> exact ⟨_, rfl⟩
  · rw [if_neg ht]
    obtain ⟨item, statusCodes, resume, hd, haff, hrole⟩ := h.presence ht (hp.resolve_right ht)
    obtain ⟨affiliation, haff⟩ := affiliationName_isSome haff
    obtain ⟨role, hrole⟩ := roleName_isSome hrole
    rw [hd]
    dsimp only
    unfold buildPresenceMucadm
    rw [haff, hrole]
    exact ⟨_, rfl⟩

theorem ValidPacket.iqReply (h : ValidPacket packet) (ht : packet.type ≠ stanzaError)
    (hn : packet.name = .iq) : ∃ added, iqReply clock packet = some added := by
  have hroom := h.room ht hn
  have hitems := h.items ht hn
  unfold Mukite.iqReply
  by_cases hstats : packet.iqType = buildIqStats
  · obtain ⟨stats, hs⟩ := h.stats ht hn hstats
    rw [hs]
    simp +decide [hstats]
  · split_ifs with _ _ _ _ _ _ hr
    any_goals exact ⟨_, rfl⟩
    -- the replies about a room
    unfold roomReply
    rcases hr with hr | hr | hr | hr
    · obtain ⟨room, hd⟩ := hroom (.inl hr)
      simp +decide [hr, hd]
    · obtain ⟨room, hd⟩ := hroom (.inr (.inl hr))
      simp +decide [hr, hd]
    · obtain ⟨affiliation, items, hd, haff⟩ := hitems hr
      obtain ⟨name, haff⟩ := affiliationName_isSome haff
      simp +decide [hr, hd, buildRoomAffiliations, haff]
      split <;> exact ⟨_, rfl⟩
    · obtain ⟨room, hd⟩ := hroom (.inr (.inr hr))
      simp +decide [hr, hd]

/-- A valid packet has a text. -/
theorem ValidPacket.rendering (h : ValidPacket packet) :
    ∃ text, rendering clock packet = some text := by
  have hadd : ∃ added, addition clock packet = some added := by
    unfold addition
    split
    · next hp => exact h.presenceAddition hp
    · next hp =>
      split
      · next hn => exact h.iqReply (fun ht => hp (.inr ht)) hn
      · exact ⟨_, rfl⟩
  obtain ⟨added, hadd⟩ := hadd
  exact ⟨_, congrArg _ hadd⟩

end ValidPacket

/-- What `builder_build` makes of a packet with a text, in an empty buffer. -/
structure BuildsText (text : Bytes) (buffer buffer' : BuilderBuffer) (built : Bool) : Prop where
  data : buffer'.data = buffer.data
  stop : buffer'.stop = buffer.stop
  dataEnd : buffer'.dataEnd ≤ buffer.stop
  length : buffer'.mem.length = buffer.mem.length
  /-- nothing is written behind the end of the buffer, or before its data -/
  outside : ∀ i, ¬ (buffer.data ≤ i ∧ i < buffer.stop) → buffer'.mem[i]? = buffer.mem[i]?
  fits : built = true ↔ text.length ≤ buffer.stop - buffer.data
  bytes : built = true → buffer'.bytes = text

/-- A buffer of a size, with something behind it. -/
def freshBuffer (size : Nat) : BuilderBuffer where
  mem := List.replicate (size + 8) 7
  data := 0
  dataEnd := 0
  stop := size

theorem freshBuffer_empty (size : Nat) : (freshBuffer size).Empty where
  dataEnd := rfl
  le := Nat.zero_le _
  allocated := by
    show size ≤ (List.replicate (size + 8) 7).length
    rw [List.length_replicate]
    exact Nat.le_add_right _ _

section Built

variable {stray : Stray} {clock : Clock} {packet : OutgoingPacket} {text tzo : Bytes}
  {buffer buffer' : BuilderBuffer}

/-- What is pushed is built as its text, or not at all. -/
theorem builderBuildInto_pushed {pushed : List Pushes.Push}
    (hpushed : Pushes.pieces stray clock packet = some pushed) (hbuffer : buffer.Empty) :
    ∃ buffer' built, builderBuildInto stray clock packet buffer = some (buffer', built) ∧
      BuildsText (Output.texts pushed) buffer buffer' built := by
  have hblock : buffer.block.Valid :=
    ⟨Nat.le_trans (Nat.le_of_eq hbuffer.dataEnd) hbuffer.le, hbuffer.allocated⟩
  have hsealed := Pushes.sealed_pieces hpushed
  have hroom : buffer.block.room = buffer.stop - buffer.data :=
    congrArg (buffer.stop - ·) hbuffer.dataEnd
  have hframe := @Output.frame _ 0 stray.scraps pushed _ hblock
  refine ⟨_, _, congrArg _ hpushed, rfl, rfl, ?_, hframe.length, ?_, ?_, ?_⟩
  · exact Nat.le_trans hframe.valid.le (Nat.le_of_eq hframe.stop)
  · intro i hi
    refine hframe.outside i fun hin => hi ⟨?_, hin.2⟩
    exact Nat.le_trans (Nat.le_of_eq hbuffer.dataEnd.symm) hin.1
  · rw [← hroom]
    exact Output.run_iff hblock hsealed
  · intro hbuilt
    have hrun := Output.run_text hblock hsealed hbuilt
    have hdata : buffer.block.pos = buffer.data := hbuffer.dataEnd
    rw [hdata] at hrun
    exact hrun

/-! ## The offset of the time zone -/

/-- The answer to a query for the time, where the time zone is written like `+0300`. -/
def TellsTime (clock : Clock) (packet : OutgoingPacket) : Prop :=
  packet.name = .iq ∧ packet.type ≠ stanzaError ∧ packet.iqType = buildIqTime ∧
    clock.zone.length = 5

theorem terminated_append {rest : Bytes} (h : 0 ∉ text) (hrest : 0 ∈ rest) :
    terminated (text ++ rest) = some (text ++ rest.takeWhile (· != 0)) := by
  unfold terminated
  rw [if_pos (List.mem_append_right _ hrest), List.takeWhile_append_of_pos]
  intro c hc
  simp only [bne_iff_ne, ne_eq]
  rintro rfl
  exact h hc

/-- A time zone that is not written in five characters is left as it is. -/
theorem zoneText_of_length (h : clock.zone.length ≠ 5) :
    stray.zoneText clock = some clock.tzo := by
  unfold Stray.zoneText Stray.zoneBuffer Clock.tzo memcpy
  dsimp only
  rw [if_neg h, if_neg h]
  simp only [List.take_zero, List.nil_append, List.append_assoc, List.cons_append]
  rw [terminated_append clock.zone_string List.mem_cons_self, List.takeWhile_cons_of_neg (by decide),
    List.append_nil]

/-- The offset is pushed as such but in the answers to queries for the time. -/
theorem zoneText_of_not_tellsTime (h : ¬ TellsTime clock packet) (hname : packet.name = .iq)
    (htype : packet.type ≠ stanzaError) (htime : packet.iqType = buildIqTime) :
    stray.zoneText clock = some clock.tzo :=
  zoneText_of_length fun hlen => h ⟨hname, htype, htime, hlen⟩

/-- A packet with a text is built as that text, or not at all. -/
theorem builderBuildInto_text (htells : ¬ TellsTime clock packet)
    (htext : rendering clock packet = some text) (hbuffer : buffer.Empty) :
    ∃ buffer' built, builderBuildInto stray clock packet buffer = some (buffer', built) ∧
      BuildsText text buffer buffer' built := by
  rw [← @Pushes.texts_pieces stray _ _ (zoneText_of_not_tellsTime htells)] at htext
  obtain ⟨pushed, hpushed, rfl⟩ := Option.map_eq_some_iff.mp htext
  exact builderBuildInto_pushed hpushed hbuffer

/-- What has been built is the text of the packet. -/
theorem rendering_of_built (htells : ¬ TellsTime clock packet) (hbuffer : buffer.Empty)
    (h : builderBuildInto stray clock packet buffer = some (buffer', true)) :
    rendering clock packet = some buffer'.bytes := by
  obtain ⟨pushed, hpushed, -⟩ := Option.map_eq_some_iff.mp h
  have htext : rendering clock packet = some (Output.texts pushed) := by
    rw [← Pushes.texts_pieces (zoneText_of_not_tellsTime htells), hpushed]
    rfl
  obtain ⟨buffer₁, built, hbuild, hspec⟩ := @builderBuildInto_text stray _ _ _ _ htells htext hbuffer
  rw [hbuild] at h
  cases h
  rw [htext, hspec.bytes rfl]

/-- The answer to a query for the time, with an offset. -/
def timeStanza (clock : Clock) (packet : OutgoingPacket) (tzo : Bytes) : Bytes :=
  builderHead (bptBytes packet.fromHost) packet.toBuilderPacket ++
    (bptBytes packet.userData ++ (lit "<time xmlns='urn:xmpp:time'>" ++
      (lit "<tzo>" ++ tzo ++ lit "</tzo><utc>" ++ clock.date clock.time true ++ lit "Z" ++
        lit "</utc>") ++ lit "</time>")) ++ delayText clock packet ++ endTag packet.name

theorem rendering_time (h : TellsTime clock packet) :
    rendering clock packet = some (timeStanza clock packet clock.tzo) := by
  obtain ⟨hname, htype, htime, -⟩ := h
  simp +decide [rendering, addition, iqReply, hname, htype, htime, timeStanza, buildIqTimeText]

/-- The pushes of the answer say whatever is in `str_buffer`. -/
theorem texts_time (h : TellsTime clock packet) (hzone : stray.zoneText clock = some tzo) :
    (Pushes.pieces stray clock packet).map Output.texts = some (timeStanza clock packet tzo) := by
  obtain ⟨hname, htype, htime, -⟩ := h
  simp +decide [Pushes.pieces, Pushes.addition, Pushes.iqReply, Pushes.buildIqTimeText, hname,
    htype, htime, hzone, timeStanza, Pushes.texts_headPieces, Pushes.texts_delayPieces]

theorem length_timeStanza : (timeStanza clock packet tzo).length
    = (timeStanza clock packet []).length + tzo.length := by
  unfold timeStanza
  simp only [List.length_append, List.length_nil]
  omega

/-- A copy of three bytes in a move of two and a move of one; when it is made to the next byte, the
second move reads what the first one has written. -/
def movedInTwo (three : Bytes) : Bytes := [three.getD 0 0, three.getD 1 0, three.getD 1 0]

/-- A program that copies so, with something in the last bytes of `str_buffer`. -/
def movingStray (left : Bytes) (h : left.length = 3) : Stray where
  scraps := fun _ _ => []
  strBuffer := List.replicate 7 0 ++ left
  strBuffer_length := by rw [List.length_append, List.length_replicate, h]
  overlapped := movedInTwo
  overlapped_length := fun _ => rfl
  behind := []

/-- **The terminator is lost in the copy**: the last digit stands twice, and what was left in
`str_buffer` follows. -/
theorem zoneText_moving {left : Bytes} (hleft : left.length = 3) (hzero : 0 ∈ left)
    (h : clock.zone.length = 5) : (movingStray left hleft).zoneText clock
      = some (clock.tzo ++ clock.zone.drop 4 ++ left.takeWhile (· != 0)) := by
  have hstring := clock.zone_string
  unfold Stray.zoneText Stray.zoneBuffer Clock.tzo movingStray
  dsimp only
  rw [if_pos h, if_pos h]
  generalize clock.zone = zone at h hstring
  match zone, h, left, hleft with
  | [a, b, c, d, e], _, [l, m, n], _ =>
    refine @terminated_append [a, b, c, ch ':', d, e, e] [l, m, n] ?_ hzero
    simp only [List.mem_cons, List.not_mem_nil, or_false, not_or] at hstring ⊢
    obtain ⟨ha, hb, hc, hd, he⟩ := hstring
    exact ⟨ha, hb, hc, by decide, hd, he, he⟩

/-- **A packet is built if and only if its whole text fits**, but for the answers to queries for the
time. Whatever the room is, nothing is written behind the end of the buffer or before its data, and
what is built is the whole text. -/
theorem builderBuildInto_exact_iff (clock : Clock) (packet : OutgoingPacket)
    (hvalid : ValidPacket packet) :
    (∀ stray, ∃ text, rendering clock packet = some text ∧
      ∀ buffer : BuilderBuffer, buffer.Empty →
        ∃ buffer' built, builderBuildInto stray clock packet buffer = some (buffer', built) ∧
          BuildsText text buffer buffer' built) ↔ ¬ TellsTime clock packet := by
  constructor
  · intro h htells
    -- the last digit of the offset stands twice, which the buffer has room for
    obtain ⟨text, htext, hbuild⟩ := h (movingStray [0, 0, 0] rfl)
    have hzone := @zoneText_moving clock [0, 0, 0] rfl List.mem_cons_self htells.2.2.2
    obtain ⟨pushed, hpushed, hpushedText⟩ := Option.map_eq_some_iff.mp (texts_time htells hzone)
    have hlong : (Output.texts pushed).length = text.length + 1 := by
      rw [rendering_time htells] at htext
      obtain rfl := Option.some.inj htext
      have hzoneLength := htells.2.2.2
      rw [hpushedText, length_timeStanza, @length_timeStanza _ _ clock.tzo]
      simp [hzoneLength, Nat.add_assoc]
    obtain ⟨buffer', built, hrun, hspec⟩ := hbuild _ (freshBuffer_empty text.length)
    obtain ⟨buffer₁, built₁, hrun₁, hspec₁⟩ :=
      builderBuildInto_pushed hpushed (freshBuffer_empty text.length)
    rw [hrun] at hrun₁
    cases hrun₁
    have hfits := hspec₁.fits.mp (hspec.fits.mpr (Nat.le_refl _))
    have hroom : (freshBuffer text.length).stop - (freshBuffer text.length).data = text.length := rfl
    omega
  · intro htells stray
    obtain ⟨text, htext⟩ := @ValidPacket.rendering clock packet hvalid
    exact ⟨text, htext, fun buffer hbuffer => builderBuildInto_text htells htext hbuffer⟩

end Built
/-- `<iq/>` with the uptime of the component, 1234 seconds. -/
def uptimePacket : OutgoingPacket where
  name := .iq
  type := stanzaIqResult
  iqType := buildIqLast
  fromHost := some (lit "localhost")
  delay := 0
  uname := { sysname := [], machine := [], release := [] }
  stats := none

def uptimeClock : Clock where
  start := 1330000000
  ticks := 12345
  zone := lit "+0300"
  zone_lt := by decide
  zone_string := by decide
  stack := { year := 0, mon := 0, mday := 0, hour := 0, min := 0, sec := 0 }

def uptimeText : Bytes :=
  lit "<iq from='localhost' type='result'><query xmlns='jabber:iq:last' seconds='1234'/></iq>"

theorem validPacket_uptime : ValidPacket uptimePacket where
  error := fun h => by cases h
  presence := fun _ h => by cases h
  room := fun _ _ h => by rcases h with h | h | h <;> cases h
  items := fun _ _ h => by cases h
  stats := fun _ _ h => by cases h

theorem builderBuildInto_exact_iff_uptime :
    (∃ buffer', builderBuildInto (movingStray [0, 0, 0] rfl) uptimeClock uptimePacket
        (freshBuffer uptimeText.length) = some (buffer', true) ∧ buffer'.bytes = uptimeText) ∧
      ∃ buffer', builderBuildInto (movingStray [0, 0, 0] rfl) uptimeClock uptimePacket
        (freshBuffer (uptimeText.length - 1)) = some (buffer', false) := by
  have hno : ¬ TellsTime uptimeClock uptimePacket := fun h => absurd h.2.2.1 (by decide)
  obtain ⟨text, htext, hbuild⟩ :=
    (builderBuildInto_exact_iff uptimeClock uptimePacket validPacket_uptime).mpr hno
      (movingStray [0, 0, 0] rfl)
  obtain rfl : uptimeText = text := Option.some.inj htext
  constructor
  · obtain ⟨buffer', built, hrun, hspec⟩ := hbuild _ (freshBuffer_empty uptimeText.length)
    obtain rfl : built = true := hspec.fits.mpr (Nat.le_refl _)
    exact ⟨buffer', hrun, hspec.bytes rfl⟩
  · obtain ⟨buffer', built, hrun, hspec⟩ := hbuild _ (freshBuffer_empty (uptimeText.length - 1))
    obtain rfl : built = false :=
      Bool.eq_false_iff.mpr fun h => absurd (hspec.fits.mp h) (by decide)
    exact ⟨buffer', hrun⟩

/-- The answer of the component to a query for the time. -/
def timePacket : OutgoingPacket := { uptimePacket with iqType := buildIqTime }

theorem validPacket_time : ValidPacket timePacket where
  error := fun h => by cases h
  presence := fun _ h => by cases h
  room := fun _ _ h => by rcases h with h | h | h <;> cases h
  items := fun _ _ h => by cases h
  stats := fun _ _ h => by cases h

/-- Greenwich. -/
def utcClock : Clock := { uptimeClock with zone := lit "+0000", zone_lt := by decide
                                           zone_string := by decide }

set_option maxRecDepth 100000 in
/-- The offset of UTC, by a program that copies two bytes and then one: the text that is built is
another one than that of the packet. -/
theorem offset_spoilt : ValidPacket timePacket ∧
    ∃ text buffer', rendering utcClock timePacket = some text ∧
      builderBuildInto (movingStray [0, 0, 0] rfl) utcClock timePacket (freshBuffer 256)
        = some (buffer', true) ∧
      text = lit ("<iq from='localhost' type='result'><time xmlns='urn:xmpp:time'>" ++
        "<tzo>+00:00</tzo><utc>2012-02-23T12:47:14Z</utc></time></iq>") ∧
      buffer'.bytes = lit ("<iq from='localhost' type='result'><time xmlns='urn:xmpp:time'>" ++
        "<tzo>+00:000</tzo><utc>2012-02-23T12:47:14Z</utc></time></iq>") := by
  have hany : (builderBuildInto (movingStray [0, 0, 0] rfl) utcClock timePacket (freshBuffer 256)).any
      (fun r => r.2 && r.1.bytes == lit
        ("<iq from='localhost' type='result'><time xmlns='urn:xmpp:time'>" ++
          "<tzo>+00:000</tzo><utc>2012-02-23T12:47:14Z</utc></time></iq>")) = true := by
    decide +kernel
  obtain ⟨⟨buffer', built⟩, hrun, hfacts⟩ := (Option.any_eq_true _ _).mp hany
  obtain ⟨hbuilt, hbytes⟩ := Bool.and_eq_true_iff.mp hfacts
  obtain rfl : built = true := hbuilt
  exact ⟨validPacket_time, _, buffer', rfl, hrun, by decide +kernel, beq_iff_eq.mp hbytes⟩

/-! ## The packets of the rooms -/

/-- What is sent about a room is part of the replies. -/
theorem iqReply_of_roomReply {clock : Clock} {packet : OutgoingPacket} {added : Bytes}
    (h : roomReply (bptBytes packet.fromHost) packet.toBuilderPacket = some added) :
    iqReply clock packet = some added := by
  by_cases hroom : packet.iqType = buildIqRoomDiscoInfo ∨ packet.iqType = buildIqRoomDiscoItems ∨
      packet.iqType = buildIqRoomAffiliations ∨ packet.iqType = buildIqRoomConfig
  · have hno : packet.iqType ≠ buildIqTime := by
      rintro htime
      rw [htime] at hroom
      revert hroom
      decide
    rw [← @Pushes.texts_iqReply (movingStray [0, 0, 0] rfl) _ _ (fun htime => absurd htime hno),
      Pushes.texts_roomReply hroom]
    exact h
  · obtain ⟨hinfo, hitems, haffs, hconfig⟩ : packet.iqType ≠ buildIqRoomDiscoInfo ∧
        packet.iqType ≠ buildIqRoomDiscoItems ∧ packet.iqType ≠ buildIqRoomAffiliations ∧
        packet.iqType ≠ buildIqRoomConfig := by simpa [not_or] using hroom
    unfold roomReply at h
    dsimp only at h
    rw [if_neg hinfo, if_neg hitems, if_neg haffs, if_neg hconfig] at h
    split at h
    · next hempty =>
      rw [← h]
      simp +decide [iqReply, hempty]
    · cases h

/-- **A packet that is not delayed has the text that the rooms' properties speak of.** -/
theorem rendering_of_builderBuild {clock : Clock} {packet : OutgoingPacket} {text : Bytes}
    (hdelay : packet.delay = 0)
    (h : builderBuild (bptBytes packet.fromHost) packet.toBuilderPacket = some text) :
    rendering clock packet = some text := by
  obtain ⟨added, hadded, rfl⟩ := Option.map_eq_some_iff.mp h
  have haddition : addition clock packet = some added := by
    unfold builderAddition at hadded
    unfold addition
    split at hadded
    · next hp => rw [if_pos hp, hadded]
    · next hp =>
      rw [if_neg hp]
      split at hadded
      · next hn => rw [if_pos hn, iqReply_of_roomReply hadded]
      · next hn => rw [if_neg hn, hadded]
  have hdelayed : delayText clock packet = [] := by
    unfold delayText
    rw [if_pos hdelay]
  unfold rendering
  rw [haddition, hdelayed, Option.map_some, List.append_nil]

end Mukite
