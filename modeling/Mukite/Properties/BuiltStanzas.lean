import Mukite.Properties.Relays
import Mukite.Properties.Moves
import Mukite.Properties.Truncation

/-!
# Built stanzas are well framed

Whatever `builder_build` puts together, the stanza ends where its text ends: the literals open and
close every tag and every value, in each combination of the optional parts and for lists of any
length. The attributes of the start tag are those of the header, then `from`, `to` and `type`.
The answers to queries for the time are another matter: what stands behind the offset of the time
zone is left over from other work.

* `wholeNode_rendering`: the scan of the whole text, part by part.
* `built_framed_iff`: when what is built is one node whose start tag has these attributes.
-/

namespace Mukite

open TextScan

/-! ## What goes into a stanza -/

/-- A header: attributes, with white space behind them. -/
structure HeaderText (header : Bytes) (attrs : List AttrText) (space : Bytes) : Prop where
  text : header = attrsText attrs ++ space
  attrs : ∀ a ∈ attrs, a.InTag
  space : ∀ c ∈ space, whitespace c = true

/-- The strings in `sys_data` are plain, its reason nodes and `resume` are elements. -/
def PlainSysData : SysData → Prop
  | .zero => True
  | .error error => PlainText (lit error.code) ∧ PlainText (lit error.type) ∧
      PlainText (lit error.name) ∧ PlainText (lit error.text)
  | .presence item _ resume => PlainText (jidStr item.jid) ∧ PlainText (bptBytes item.nick) ∧
      Elements (bptBytes item.reasonNode) ∧ Elements (bptBytes resume)
  | .room room => PlainText (bptBytes room.node) ∧ PlainText (bptBytes room.title) ∧
      PlainText (bptBytes room.description) ∧ PlainText (bptBytes room.password) ∧
      ∀ p ∈ room.occupants, PlainText (bptBytes p.2.nick)
  | .mucItems _ items => ∀ aff ∈ items, PlainText (jidStr aff.jid) ∧
      Elements (bptBytes aff.reasonNode)

/-- What is inserted into a stanza, but for its header. -/
structure PlainPacket (clock : Clock) (packet : OutgoingPacket) : Prop where
  fromNode : PlainText (bptBytes packet.fromNode)
  fromHost : PlainText (bptBytes packet.fromHost)
  fromNick : PlainText (bptBytes packet.fromNick)
  toJid : PlainText (jidStr packet.toJid)
  userData : Elements (bptBytes packet.userData)
  sysData : PlainSysData packet.sysData
  sysname : PlainText packet.uname.sysname
  machine : PlainText packet.uname.machine
  release : PlainText packet.uname.release
  zone : PlainText clock.zone

/-! ## Plain strings of the program -/

theorem plainText_affiliationName {affiliation : Int} {name : Bytes}
    (h : affiliationName affiliation = some name) : PlainText name := by
  have hall : ∀ a : Affil, PlainText (lit (affiliationNames a)) := by decide
  obtain ⟨a, -, rfl⟩ := Option.map_eq_some_iff.mp h
  exact hall a

theorem plainText_roleName {role : Int} {name : Bytes} (h : roleName role = some name) :
    PlainText name := by
  have hall : ∀ r ∈ roleNames, PlainText (lit r.2) := by decide
  obtain ⟨r, hr, rfl⟩ := Option.map_eq_some_iff.mp h
  exact hall r (List.mem_of_find?_eq_some hr)

theorem plainText_typeName {name : StanzaName} {type : Nat} : PlainText (typeName name type) := by
  unfold typeName
  split
  · decide
  · cases name with
    | unset => exact plainText_nil
    | _ =>
      dsimp only
      split_ifs <;> decide

theorem plainText_twoDigits (n : Int) : PlainText (lit (twoDigits n)) := by
  unfold twoDigits
  split
  · rw [lit_append, plainText_append]
    exact ⟨by decide, plainText_toString n⟩
  · exact plainText_toString n

theorem plainText_date (clock : Clock) (t : Int) (utcMark : Bool) :
    PlainText (clock.date t utcMark) := by
  have hdash : PlainText (lit (if utcMark then "-" else "")) := by
    cases utcMark <;> decide
  unfold Clock.date strftime
  simp only [lit_append, plainText_append, plainText_toString, plainText_twoDigits, hdash, true_and,
    and_true]
  decide

theorem plainText_drop {text : Bytes} (h : PlainText text) (n : Nat) : PlainText (text.drop n) := by
  rw [← List.take_append_drop n text] at h
  exact (plainText_append.mp h).2

theorem plainText_tzo {clock : Clock} (h : PlainText clock.zone) : PlainText clock.tzo := by
  unfold Clock.tzo
  split
  · have hsplit := List.take_append_drop 3 clock.zone
    unfold PlainText at h
    rw [← hsplit, List.all_append, Bool.and_eq_true] at h
    rw [plainText_append, plainText_append]
    exact ⟨⟨h.1, by decide⟩, h.2⟩
  · exact h

theorem plainText_fromText {clock : Clock} {packet : OutgoingPacket} (h : PlainPacket clock packet) :
    PlainText (fromText (bptBytes packet.fromHost) packet.toBuilderPacket) := by
  have hnode := h.fromNode
  have hnick := h.fromNick
  have hat : PlainText (lit "@") := by decide
  have hslash : PlainText (lit "/") := by decide
  unfold fromText
  simp only [plainText_append]
  refine ⟨⟨?_, h.fromHost⟩, ?_⟩
  · cases hn : packet.fromNode with
    | none => exact plainText_nil
    | some node =>
      rw [hn] at hnode
      exact plainText_append.mpr ⟨hnode, hat⟩
  · cases hn : packet.fromNick with
    | none => exact plainText_nil
    | some nick =>
      rw [hn] at hnick
      exact plainText_append.mpr ⟨hslash, hnick⟩

/-! ## The start tag -/

section Head

variable {clock : Clock} {packet : OutgoingPacket} {attrs : List AttrText} {space : Bytes}

/-- **The start tag opens one element and is closed itself.** -/
theorem moves_builderHead (hname : packet.name ≠ .unset) (h : PlainPacket clock packet)
    (hheader : HeaderText (bptBytes packet.header) attrs space) :
    Moves (between 0 none) (between 1 none)
      (builderHead (bptBytes packet.fromHost) packet.toBuilderPacket) := by
  have htag : Moves (between 0 none) (inTag 1) (tagStart packet.name ++ bptBytes packet.header) := by
    have hword : stanzaWord packet.name ≠ [] ∧ (stanzaWord packet.name).all nameChar = true := by
      cases hn : packet.name with
      | unset => exact absurd hn hname
      | _ => decide
    have hpasses := @passes_tag 1 { name := stanzaWord packet.name, attrs := attrs, space := space }
      ⟨hword, fun a ha => (hheader.attrs a ha).printed, hheader.space⟩
    have htext : tagStart packet.name ++ bptBytes packet.header = ch '<' ::
        XmlTag.text { name := stanzaWord packet.name, attrs := attrs, space := space } := by
      rw [tagStart, if_neg hname, hheader.text]
      rfl
    rw [htext]
    exact (Passes.cons (next_start 0) hpasses).moves
  have hto : Moves (inValue 1) (inValue 1)
      (if jidEmpty packet.toJid then [] else lit "' to='" ++ jidStr packet.toJid) := by
    split
    · exact moves_nil _
    · exact Moves.append (moves_lit (by decide)) (moves_value h.toJid)
  have htype : Moves (inValue 1) (inValue 1)
      (if packet.type = 0 then [] else lit "' type='" ++ typeName packet.name packet.type) := by
    split
    · exact moves_nil _
    · exact Moves.append (moves_lit (by decide)) (moves_value plainText_typeName)
  have hfrom : Moves (inTag 1) (inValue 1) (lit " from='") := moves_lit (by decide)
  have hend : Moves (inValue 1) (between 1 none) (lit "'>") := moves_lit (by decide)
  exact ((((htag.append hfrom).append (moves_value (plainText_fromText h))).append hto).append
    htype).append hend

end Head

/-! ## The additions -/

section Additions

variable {clock : Clock} {packet : OutgoingPacket} {added : Bytes}

/-- An optional part that does not move the scan. -/
theorem moves_ite {t : TextScan} {c : Prop} [Decidable c] {u v : Bytes} (hu : Moves t t u)
    (hv : Moves t t v) : Moves t t (if c then u else v) := by
  split
  · exact hu
  · exact hv

theorem moves_buildStatus (statusCodes : Nat) :
    Moves (between 2 none) (between 2 none) (buildStatus statusCodes) := by
  have hall : ∀ status ∈ statusNames, Moves (between 2 none) (between 2 none)
      (lit ("<status code='" ++ status.2 ++ "'/>")) := by
    have hcode : ∀ status ∈ statusNames, PlainText (lit status.2) := by decide
    have hopen : Moves (between 2 none) (inValue 3) (lit "<status code='") :=
      moves_lit (by decide)
    intro status hs
    rw [lit_append, lit_append]
    exact (hopen.append (moves_value (hcode status hs))).append (moves_lit (by decide))
  unfold buildStatus
  split
  · exact moves_nil _
  · next status hs => exact hall status (List.mem_of_find?_eq_some hs)

theorem moves_buildPresenceMucadm {item : MucAdminItem} {statusCodes : Nat} {resume : Buffer}
    (h : buildPresenceMucadm item statusCodes resume = some added)
    (hplain : PlainSysData (.presence item statusCodes resume)) :
    Moves (between 1 none) (between 1 none) added := by
  obtain ⟨hjid, hnick, hreason, hresume⟩ := hplain
  unfold buildPresenceMucadm at h
  obtain ⟨affiliation, haff, h⟩ := Option.bind_eq_some_iff.mp h
  obtain ⟨role, hrole, h⟩ := Option.bind_eq_some_iff.mp h
  cases h
  have htag : Moves (between 1 none) (between 2 none) mucadmTag := moves_lit (by decide)
  have hitem : Moves (between 2 none) (inValue 3) (lit "<item affiliation='") := moves_lit (by decide)
  have hroleText : Moves (inValue 3) (inValue 3) (lit "' role='") := moves_lit (by decide)
  have hjidText : Moves (inValue 3) (inValue 3)
      (if jidEmpty item.jid then [] else lit "' jid='" ++ jidStr item.jid) :=
    moves_ite (moves_nil _) (Moves.append (moves_lit (by decide)) (moves_value hjid))
  have hend : Moves (between 2 none) (between 1 none) (lit "</x>") := moves_lit (by decide)
  refine htag.append ((((((((hitem.append (moves_value (plainText_affiliationName haff))).append
    hroleText).append (moves_value (plainText_roleName hrole))).append hjidText).keep ?_).append
    ?_).append (moves_buildStatus statusCodes)).append (moves_elements hresume (by decide))
    |>.append hend)
  · -- the nick
    cases hn : item.nick with
    | none => exact moves_nil _
    | some nick =>
      rw [hn] at hnick
      exact Moves.append (moves_lit (by decide)) (moves_value hnick)
  · -- the reason, which is a node
    cases hr : item.reasonNode with
    | none =>
      exact moves_lit (by decide)
    | some reason =>
      rw [hr] at hreason
      have hopen : Moves (inValue 3) (between 3 none) (lit "'>") := moves_lit (by decide)
      exact (hopen.append (moves_elements hreason (by decide))).append (moves_lit (by decide))

/-- A name in a tag only says whether a `/` has been seen. -/
theorem after_name {text : Bytes} (h : PlainText text) (slash : Option Bool) :
    ∃ slash', Moves { inTag 3 with slash := slash } { inTag 3 with slash := slash' } text := by
  induction text generalizing slash with
  | nil => exact ⟨slash, moves_nil _⟩
  | cons c rest ih =>
    obtain ⟨⟨hlt, hgt, h1, h2⟩, hrest⟩ : (c ≠ ch '<' ∧ c ≠ ch '>' ∧ c ≠ quote1 ∧ c ≠ quote2) ∧
        PlainText rest :=
      ⟨h.char List.mem_cons_self, (plainText_append.mp (show PlainText ([c] ++ rest) from h)).2⟩
    obtain ⟨slash₁, hnext⟩ : ∃ slash₁, ({ inTag 3 with slash := slash } : TextScan).next c
        = ({ inTag 3 with slash := slash₁ }, none) := by
      unfold TextScan.next inTag passed
      by_cases hslash : c = ch '/'
      · exact ⟨some true, by rw [hslash]; rfl⟩
      · exact ⟨slash.map (fun _ => false), by simp [hlt, hgt, h1, h2, hslash]⟩
    obtain ⟨slash', hmoves⟩ := ih hrest slash₁
    have hone : Passes { inTag 3 with slash := slash } { inTag 3 with slash := slash₁ } [c] :=
      Passes.cons hnext (passes_nil _)
    exact ⟨slash', hone.moves.append hmoves⟩

theorem moves_buildError {error : XMPPError} (hplain : PlainSysData (.error error)) :
    Moves (between 1 none) (between 1 none) (buildError error) := by
  obtain ⟨hcode, htype, hname, htext⟩ := hplain
  have herror : Moves (between 1 none) (inValue 2) (lit "<error code='") := moves_lit (by decide)
  have htypeText : Moves (inValue 2) (inValue 2) (lit "' type='") := moves_lit (by decide)
  have hopen : Moves (inValue 2) (inTag 3) (lit "'><") := moves_lit (by decide)
  -- whatever the name is, its tag ends with `/>`
  obtain ⟨slash, hnameText⟩ := after_name hname none
  have hempty : Moves { inTag 3 with slash := slash } (between 2 none)
      (lit " xmlns='urn:ietf:params:xml:ns:xmpp-stanzas'/>") := by
    cases slash with
    | none => exact moves_lit (by decide)
    | some now => cases now <;> exact moves_lit (by decide)
  have htextOpen : Moves (between 2 none) (between 3 none)
      (lit "<text xmlns='urn:ietf:params:xml:ns:xmpp-stanzas'>") := moves_lit (by decide)
  have hend : Moves (between 3 none) (between 1 none) (lit "</text></error>") := moves_lit (by decide)
  exact ((((((((herror.append (moves_value hcode)).append htypeText).append
    (moves_value htype)).append hopen).append hnameText).append hempty).append htextOpen).append
    (moves_text htext)).append hend

/-! ### Replies about a room -/

theorem moves_buildRoomItems {room : Room} {hostname : Bytes} (hplain : PlainSysData (.room room))
    (hhost : PlainText hostname) :
    Moves (between 2 none) (between 2 none) (buildRoomItems room hostname) := by
  obtain ⟨hnode, -, -, -, hnicks⟩ := hplain
  refine moves_flatten fun part hpart => ?_
  obtain ⟨current, hcurrent, rfl⟩ := List.mem_map.mp hpart
  have hnick := moves_value (L := 3) (hnicks current hcurrent)
  have hitem : Moves (between 2 none) (inValue 3) (lit "<item name='") := moves_lit (by decide)
  have hjid : Moves (inValue 3) (inValue 3) (lit "' jid='") := moves_lit (by decide)
  have hat : Moves (inValue 3) (inValue 3) (lit "@") := moves_lit (by decide)
  have hslash : Moves (inValue 3) (inValue 3) (lit "/") := moves_lit (by decide)
  have hend : Moves (inValue 3) (between 2 none) (lit "'/>") := moves_lit (by decide)
  exact (((((((hitem.append hnick).append hjid).append (moves_value hnode)).append hat).append
    (moves_value hhost)).append hslash).append hnick).append hend

theorem moves_pushFeature {test : Bool} {ifTrue ifFalse : String} (ht : PlainText (lit ifTrue))
    (hf : PlainText (lit ifFalse)) :
    Moves (between 2 none) (between 2 none) (pushFeature test ifTrue ifFalse) := by
  have hvalue : PlainText (lit (if test then ifTrue else ifFalse)) := by
    split
    · exact ht
    · exact hf
  have hopen : Moves (between 2 none) (inValue 3) (lit "<feature var='") := moves_lit (by decide)
  unfold pushFeature
  rw [lit_append, lit_append]
  exact (hopen.append (moves_value hvalue)).append (moves_lit (by decide))

theorem moves_buildRoomInfo {room : Room} (hplain : PlainSysData (.room room)) :
    Moves (between 2 none) (between 2 none) (buildRoomInfo room) := by
  obtain ⟨hnode, htitle, -⟩ := hplain
  have hname : Moves (inValue 3) (inValue 3)
      (if bptBlank room.title then bptBytes room.node else bptBytes room.title) :=
    moves_ite (moves_value hnode) (moves_value htitle)
  have hopen : Moves (between 2 none) (inValue 3)
      (lit "<identity category='conference' type='text' name='") := moves_lit (by decide)
  have hmuc : Moves (inValue 3) (between 2 none)
      (lit ("'/><feature var='http://jabber.org/protocol/muc'/>" ++
        "<feature var='http://jabber.org/protocol/disco#info'/>")) := by
    rw [lit_append]
    exact @Moves.append _ (between 2 none) _ _ _ (moves_lit (by decide)) (moves_lit (by decide))
  have hitems : Moves (between 2 none) (between 2 none)
      (if room.hasFlag mucFlagPublicparticipants then
        lit "<feature var='http://jabber.org/protocol/disco#items'/>" else []) :=
    moves_ite (moves_lit (by decide)) (moves_nil _)
  have hfeature : ∀ (flag : MucFlags) (ifTrue ifFalse : String), PlainText (lit ifTrue) →
      PlainText (lit ifFalse) → Moves (between 2 none) (between 2 none)
        (pushFeature (room.hasFlag flag) ifTrue ifFalse) :=
    fun flag _ _ ht hf => moves_pushFeature ht hf
  exact ((((((((hopen.append hname).append hmuc).append hitems).append
    (hfeature _ _ _ (plainText_lit (by decide)) (plainText_lit (by decide)))).append
    (hfeature _ _ _ (plainText_lit (by decide)) (plainText_lit (by decide)))).append
    (hfeature _ _ _ (plainText_lit (by decide)) (plainText_lit (by decide)))).append
    (hfeature _ _ _ (plainText_lit (by decide)) (plainText_lit (by decide)))).append
    (hfeature _ _ _ (plainText_lit (by decide)) (plainText_lit (by decide)))).append
    (hfeature _ _ _ (plainText_lit (by decide)) (plainText_lit (by decide)))

theorem moves_buildRoomAffiliations {items : List Affiliation} {affiliation : Int}
    (h : buildRoomAffiliations items affiliation = some added)
    (hplain : PlainSysData (.mucItems affiliation items)) :
    Moves (between 2 none) (between 2 none) added := by
  unfold buildRoomAffiliations at h
  split at h
  · cases h
    exact moves_nil _
  · obtain ⟨name, hname, rfl⟩ := Option.map_eq_some_iff.mp h
    refine moves_flatten fun part hpart => ?_
    obtain ⟨aff, haff, rfl⟩ := List.mem_map.mp hpart
    obtain ⟨hjid, hreason⟩ := hplain aff haff
    have hitem : Moves (between 2 none) (inValue 3) (lit "<item affiliation='") := moves_lit (by decide)
    have hjidText : Moves (inValue 3) (inValue 3) (lit "' jid='") := moves_lit (by decide)
    refine (((hitem.append (moves_value (plainText_affiliationName hname))).append
      hjidText).append (moves_value hjid)).append ?_
    cases hr : aff.reasonNode with
    | none =>
      exact moves_lit (by decide)
    | some reason =>
      rw [hr] at hreason
      have hopen : Moves (inValue 3) (between 3 none) (lit "'>") := moves_lit (by decide)
      exact (hopen.append (moves_elements hreason (by decide))).append (moves_lit (by decide))

/-- A field of the form. -/
theorem moves_pushField {type label var : String} {data appendix : Bytes}
    (htype : PlainText (lit type)) (hlabel : PlainText (lit label)) (hvar : PlainText (lit var))
    (hdata : PlainText data) (happendix : Moves (between 4 none) (between 4 none) appendix) :
    Moves (between 3 none) (between 3 none) (pushField type label var data appendix) := by
  have hopen : Moves (between 3 none) (inValue 4) (lit "<field type='") := moves_lit (by decide)
  have hlabelText : Moves (inValue 4) (inValue 4) (lit "' label='") := moves_lit (by decide)
  have hvarText : Moves (inValue 4) (inValue 4) (lit "' var='") := moves_lit (by decide)
  have hvalue : Moves (inValue 4) (between 5 none) (lit "'><value>") := moves_lit (by decide)
  have hvalueEnd : Moves (between 5 none) (between 4 none) (lit "</value>") := moves_lit (by decide)
  have hend : Moves (between 4 none) (between 3 none) (lit "</field>") := moves_lit (by decide)
  unfold pushField
  simp only [lit_append]
  exact (((((((((hopen.append (moves_value htype)).append hlabelText).append
    (moves_value hlabel)).append hvarText).append (moves_value hvar)).append hvalue).append
    (moves_text hdata)).append hvalueEnd).append happendix).append hend

/-- The choices of a field. -/
theorem moves_choiceOptions {options : List (String × String)}
    (h : ∀ option ∈ options, PlainText (lit option.1) ∧ PlainText (lit option.2)) :
    Moves (between 4 none) (between 4 none) (choiceOptions options) := by
  have hopen : Moves (between 4 none) (inValue 5) (lit "<option label='") := moves_lit (by decide)
  have hvalue : Moves (inValue 5) (between 6 none) (lit "'><value>") := moves_lit (by decide)
  have hend : Moves (between 6 none) (between 4 none) (lit "</value></option>") :=
    moves_lit (by decide)
  refine moves_flatten fun part hpart => ?_
  obtain ⟨option, hoption, rfl⟩ := List.mem_map.mp hpart
  obtain ⟨hlabel, htext⟩ := h option hoption
  simp only [lit_append]
  exact (((hopen.append (moves_value hlabel)).append hvalue).append (moves_text htext)).append hend

theorem moves_buildRoomConfig {room : Room} (hplain : PlainSysData (.room room)) :
    Moves (between 2 none) (between 2 none) (buildRoomConfig room) := by
  obtain ⟨hnode, htitle, hdescription, hpassword, -⟩ := hplain
  have hbool : ∀ value : Bool, PlainText (pushBool value) := by decide
  have hopen : Moves (between 2 none) (between 4 none)
      (lit ("<instructions>You need an x:data capable client to configure room</instructions>" ++
        "<x xmlns='jabber:x:data' type='form'><title>Configuration of room ")) := by
    rw [lit_append]
    exact @Moves.append _ (between 2 none) _ _ _ (moves_lit (by decide +kernel))
      (moves_lit (by decide +kernel))
  have htitleEnd : Moves (between 4 none) (between 3 none) (lit "</title>") := moves_lit (by decide)
  have hend : Moves (between 3 none) (between 2 none) (lit "</x>") := moves_lit (by decide)
  have hoptions : Moves (between 4 none) (between 4 none) (choiceOptions [("5", "5"), ("10", "10"),
      ("20", "20"), ("30", "30"), ("50", "50"), ("100", "100"), ("200", "200"), ("500", "500"),
      ("1000", "1000")]) := moves_choiceOptions (by decide)
  have hwhois : Moves (between 4 none) (between 4 none)
      (choiceOptions [("moderators only", "moderators"), ("anyone", "anyone")]) :=
    moves_choiceOptions (by decide)
  have hpresent : PlainText
      (if room.hasFlag mucFlagSemianonymous then lit "moderators" else lit "anyone") := by
    split <;> decide
  unfold buildRoomConfig
  dsimp only
  refine Moves.append ?_ hend
  -- one goal for each field, and one for the title before them
  repeat' with_reducible first
    | refine moves_pushField ?_ ?_ ?_ ?_ ?_
    | exact (hopen.append (moves_text hnode)).append htitleEnd
    | refine Moves.keep ?_ ?_
  all_goals with_reducible first
    | exact htitle
    | exact hdescription
    | exact hpassword
    | exact hbool _
    | exact plainText_toString _
    | exact hpresent
    | exact hoptions
    | exact hwhois
    | exact moves_nil _
    | exact plainText_lit (by decide)

/-! ### Replies of the component -/

theorem moves_versionReply {uname : Utsname} (hsysname : PlainText uname.sysname)
    (hmachine : PlainText uname.machine) (hrelease : PlainText uname.release) :
    Moves (between 1 none) (between 1 none) (versionReply uname) := by
  have hopen : Moves (between 1 none) (between 3 none)
      (lit ("<query xmlns='jabber:iq:version'>" ++
        "<name>Mukite http://mukite.org/</name><version>git</version><os>")) := by
    rw [lit_append]
    exact @Moves.append _ (between 2 none) _ _ _ (moves_lit (by decide))
      (moves_lit (by decide +kernel))
  have hslash : Moves (between 3 none) (between 3 none) (lit "/") := moves_lit (by decide)
  have hblank : Moves (between 3 none) (between 3 none) (lit " ") := moves_lit (by decide)
  have hend : Moves (between 3 none) (between 1 none) (lit "</os></query>") := moves_lit (by decide)
  exact (((((hopen.append (moves_text hsysname)).append hslash).append
    (moves_text hmachine)).append hblank).append (moves_text hrelease)).append hend

theorem moves_pushStat {name units : String} {value : Int} (hname : PlainText (lit name))
    (hunits : PlainText (lit units)) :
    Moves (between 2 none) (between 2 none) (pushStat name value units) := by
  have hopen : Moves (between 2 none) (inValue 3) (lit "<stat name='") := moves_lit (by decide)
  have hunitsText : Moves (inValue 3) (inValue 3) (lit "' units='") := moves_lit (by decide)
  have hvalue : Moves (inValue 3) (inValue 3) (lit "' value='") := moves_lit (by decide)
  have hend : Moves (inValue 3) (between 2 none) (lit "'/>") := moves_lit (by decide)
  unfold pushStat
  simp only [lit_append]
  exact (((((hopen.append (moves_value hname)).append hunitsText).append
    (moves_value hunits)).append hvalue).append (moves_value (plainText_toString value))).append
    hend

theorem moves_buildStats (clock : Clock) (queue : StanzaQueueStats) (ringbuffer : RingBufferStats) :
    Moves (between 2 none) (between 2 none) (buildStats clock queue ringbuffer) := by
  unfold buildStats
  repeat' with_reducible refine Moves.keep ?_ ?_
  all_goals exact moves_pushStat (plainText_lit (by decide)) (plainText_lit (by decide))

theorem moves_buildIqTimeText {clock : Clock} (h : PlainText clock.zone) :
    Moves (between 2 none) (between 2 none) (buildIqTimeText clock) := by
  have hopen : Moves (between 2 none) (between 3 none) (lit "<tzo>") := moves_lit (by decide)
  have hutc : Moves (between 3 none) (between 3 none) (lit "</tzo><utc>") := moves_lit (by decide)
  have hmark : Moves (between 3 none) (between 3 none) (lit "Z") := moves_lit (by decide)
  have hend : Moves (between 3 none) (between 2 none) (lit "</utc>") := moves_lit (by decide)
  exact ((((hopen.append (moves_text (plainText_tzo h))).append hutc).append
    (moves_text (plainText_date _ _ _))).append hmark).append hend

/-- A query with its content. -/
theorem moves_query {xmlns : String} {content : Bytes} (hxmlns : PlainText (lit xmlns))
    (h : Moves (between 2 none) (between 2 none) content) : Moves (between 1 none) (between 1 none)
      (lit ("<query xmlns='" ++ xmlns ++ "'>") ++ content ++ lit "</query>") := by
  have hopen : Moves (between 1 none) (inValue 2) (lit "<query xmlns='") := moves_lit (by decide)
  have hclose : Moves (inValue 2) (between 2 none) (lit "'>") := moves_lit (by decide)
  have hend : Moves (between 2 none) (between 1 none) (lit "</query>") := moves_lit (by decide)
  rw [lit_append, lit_append]
  exact (((hopen.append (moves_value hxmlns)).append hclose).append h).append hend

/-- The replies about a room. -/
theorem moves_roomReply {fromHost : Bytes} {packet : BuilderPacket} (hhost : PlainText fromHost)
    (hplain : PlainSysData packet.sysData) (h : roomReply fromHost packet = some added) :
    Moves (between 1 none) (between 1 none) added := by
  unfold roomReply at h
  dsimp only at h
  split at h
  · cases h
    exact moves_nil _
  split at h
  · split at h <;> cases h
    next hd =>
      rw [hd] at hplain
      exact moves_query (plainText_lit (by decide)) (moves_buildRoomInfo hplain)
  split at h
  · split at h <;> cases h
    next hd =>
      rw [hd] at hplain
      exact moves_query (plainText_lit (by decide)) (moves_buildRoomItems hplain hhost)
  split at h
  · split at h
    · next hd =>
      rw [hd] at hplain
      obtain ⟨items, hitems, rfl⟩ := Option.map_eq_some_iff.mp h
      exact moves_query (plainText_lit (by decide)) (moves_buildRoomAffiliations hitems hplain)
    · cases h
  split at h
  · split at h <;> cases h
    next hd =>
      rw [hd] at hplain
      exact moves_query (plainText_lit (by decide)) (moves_buildRoomConfig hplain)
  · cases h

theorem moves_iqReply (hplain : PlainPacket clock packet)
    (h : iqReply clock packet = some added) : Moves (between 1 none) (between 1 none) added := by
  unfold iqReply at h
  by_cases hversion : packet.iqType = buildIqVersion
  · rw [if_pos hversion] at h
    cases h
    exact moves_versionReply hplain.sysname hplain.machine hplain.release
  rw [if_neg hversion] at h
  by_cases hlast : packet.iqType = buildIqLast
  · rw [if_pos hlast] at h
    cases h
    have hopen : Moves (between 1 none) (inValue 2)
        (lit "<query xmlns='jabber:iq:last' seconds='") := moves_lit (by decide)
    exact (hopen.append (moves_value (plainText_toString _))).append (moves_lit (by decide))
  rw [if_neg hlast] at h
  by_cases htime : packet.iqType = buildIqTime
  · rw [if_pos htime] at h
    cases h
    have hopen : Moves (between 1 none) (between 2 none) (lit "<time xmlns='urn:xmpp:time'>") :=
      moves_lit (by decide)
    exact (hopen.append (moves_buildIqTimeText hplain.zone)).append (moves_lit (by decide))
  rw [if_neg htime] at h
  by_cases hstats : packet.iqType = buildIqStats
  · rw [if_pos hstats] at h
    obtain ⟨stats, -, rfl⟩ := Option.map_eq_some_iff.mp h
    exact @moves_query "http://jabber.org/protocol/stats" _ (plainText_lit (by decide))
      (moves_buildStats clock _ _)
  rw [if_neg hstats] at h
  by_cases hself : packet.iqType = buildIqDiscoInfo
  · rw [if_pos hself] at h
    cases h
    have hinfo : Moves (between 2 none) (between 2 none) componentInfo := by
      unfold componentInfo
      repeat' with_reducible refine Moves.keep ?_ ?_
      all_goals exact moves_lit (by decide +kernel)
    exact @moves_query "http://jabber.org/protocol/disco#info" _ (plainText_lit (by decide)) hinfo
  rw [if_neg hself] at h
  by_cases hrooms : packet.iqType = buildIqDiscoItems
  · rw [if_pos hrooms] at h
    cases h
    have hopen : Moves (between 1 none) (between 2 none)
      (lit "<query xmlns='http://jabber.org/protocol/disco#items'>") := moves_lit (by decide)
    exact hopen.append (moves_lit (by decide))
  rw [if_neg hrooms] at h
  by_cases hvcard : packet.iqType = buildIqVcard
  · rw [if_pos hvcard] at h
    cases h
    have hopen : Moves (between 1 none) (between 2 none)
      (lit "<vCard xmlns='vcard-temp'><FN>Mukite XMPP Component</FN>") :=
        moves_lit (by decide +kernel)
    exact hopen.append (moves_lit (by decide))
  rw [if_neg hvcard] at h
  split at h
  · exact moves_roomReply hplain.fromHost hplain.sysData h
  · cases h
    exact moves_nil _

theorem moves_addition (hplain : PlainPacket clock packet)
    (h : addition clock packet = some added) : Moves (between 1 none) (between 1 none) added := by
  have hsys := hplain.sysData
  unfold addition at h
  split at h
  · unfold presenceAddition at h
    split at h
    · split at h
      · next hd =>
        rw [hd] at hsys
        cases h
        exact moves_buildError hsys
      · cases h
        exact moves_nil _
      · cases h
    · split at h
      · next hd =>
        rw [hd] at hsys
        exact moves_buildPresenceMucadm h hsys
      · cases h
  · split at h
    · exact moves_iqReply hplain h
    · cases h
      exact moves_nil _

theorem moves_delayText (hplain : PlainPacket clock packet) :
    Moves (between 1 none) (between 1 none) (delayText clock packet) := by
  have hopen : Moves (between 1 none) (inValue 2) (lit "<delay xmlns='urn:xmpp:delay' from='") :=
    moves_lit (by decide)
  have hstamp : Moves (inValue 2) (inValue 2) (lit "' stamp='") := moves_lit (by decide)
  have hmark : Moves (inValue 2) (inValue 2) (lit "Z") := moves_lit (by decide)
  have hold : Moves (inValue 2) (inValue 2) (lit "'/><x xmlns='jabber:x:delay' stamp='") :=
    moves_lit (by decide)
  have hend : Moves (inValue 2) (between 1 none) (lit "'/>") := moves_lit (by decide)
  unfold delayText
  refine moves_ite (moves_nil _) ?_
  refine (((((((hopen.append ?_).append (moves_value hplain.fromHost)).append hstamp).append
    (moves_value (plainText_date _ _ _))).append hmark).append hold).append
    (moves_value (plainText_date _ _ _))).append hend
  -- the node with its separator
  have hplainNode := hplain.fromNode
  cases hn : packet.fromNode with
  | none => exact moves_nil _
  | some node =>
    rw [hn] at hplainNode
    exact (moves_value hplainNode).append (moves_lit (by decide))

end Additions

/-! ## The whole stanza -/

section Stanza

variable {clock : Clock} {packet : OutgoingPacket} {attrs : List AttrText} {space text : Bytes}

/-- **The scan of a stanza comes to its end at the end of the text.** -/
theorem wholeNode_rendering (hname : packet.name ≠ .unset) (hplain : PlainPacket clock packet)
    (hheader : HeaderText (bptBytes packet.header) attrs space)
    (h : rendering clock packet = some text) : WholeNode text := by
  obtain ⟨added, hadded, rfl⟩ := Option.map_eq_some_iff.mp h
  have hend : (between 1 none).skip (endTag packet.name) = some (endTag packet.name).length := by
    cases hn : packet.name with
    | unset => exact absurd hn hname
    | _ => decide
  have hmoves := ((moves_builderHead hname hplain hheader).append
    ((moves_elements hplain.userData (by decide)).append (moves_addition hplain hadded))).append
    (moves_delayText hplain)
  exact wholeNode_of_moves hmoves hend

/-! ### The attributes -/

theorem AttrText.InTag.scannable {a : AttrText} (h : a.InTag) : a.Scannable :=
  h.printed.scannable

/-- The attributes that `builder_build` adds to a header with white space behind it. -/
def addedAttrs (fromHost space : Bytes) (packet : BuilderPacket) : List AttrText :=
  [builtAttr (space ++ lit " ") "from" (fromText fromHost packet)] ++
    (if jidEmpty packet.toJid then [] else [builtAttr (lit " ") "to" (jidStr packet.toJid)]) ++
    (if packet.type = 0 then []
      else [builtAttr (lit " ") "type" (typeName packet.name packet.type)])

/-- **The start tag, as attributes.** -/
theorem builderHead_attrs {fromHost : Bytes} {packet : BuilderPacket}
    (hheader : bptBytes packet.header = attrsText attrs ++ space) :
    builderHead fromHost packet = tagStart packet.name ++
      (attrsText (attrs ++ addedAttrs fromHost space packet) ++ lit ">") := by
  have hfrom : lit " from='" = lit " " ++ (lit "from" ++ (lit "=" ++ [quote1])) := by decide
  have hto : lit "' to='" = quote1 :: (lit " " ++ (lit "to" ++ (lit "=" ++ [quote1]))) := by decide
  have htype : lit "' type='" = quote1 :: (lit " " ++ (lit "type" ++ (lit "=" ++ [quote1]))) := by
    decide
  have hend : lit "'>" = quote1 :: lit ">" := by decide
  unfold builderHead addedAttrs
  rw [hheader, hfrom, hto, htype, hend]
  split <;> split <;> simp [builtAttr, AttrText.text, AttrText.rest]

/-- What the calls of `xmlfsm_next_attr` from a position on find, until one of them says that the
start tag ends there. -/
inductive NextAttrs (mem : Bytes) : Nat → List XmlAttr → Prop
  | noattr {data next : Nat} :
    xmlfsmNextAttr mem data = some (.noattr, next) → NextAttrs mem data []
  | success {data next : Nat} {attr : XmlAttr} {attrs : List XmlAttr} :
    xmlfsmNextAttr mem data = some (.success attr, next) → NextAttrs mem next attrs →
    NextAttrs mem data (attr :: attrs)

/-- Names and values as they are read from the memory. -/
def readPairs (mem : Bytes) (attrs : List XmlAttr) : List (Bytes × Bytes) :=
  attrs.map (fun attr => (attr.name.bytes mem, attr.value.bytes mem))

/-- The attributes of a start tag are found one after the other. -/
theorem nextAttrs_text {mem rest : Bytes} {data : Nat} (hattrs : ∀ a ∈ attrs, a.Scannable)
    (hmem : mem.drop data = attrsText attrs ++ ch '>' :: rest) :
    ∃ found, NextAttrs mem data found ∧ readPairs mem found = attrs.map AttrText.pair := by
  induction attrs generalizing data with
  | nil =>
    have hend := @nextAttr_of_end mem [] rest data (ch '>') hmem (List.forall_mem_nil _) (.inr rfl)
    exact ⟨[], .noattr hend, rfl⟩
  | cons a attrs ih =>
    have hfront : mem.drop data = a.text ++ (attrsText attrs ++ ch '>' :: rest) := by
      rw [hmem, attrsText_cons, List.append_assoc]
    obtain ⟨found, hfound, hpairs⟩ := ih (fun b hb => hattrs b (List.mem_cons_of_mem _ hb))
      (drop_add_of_drop hfront)
    refine ⟨_, .success ((hattrs a List.mem_cons_self).nextAttr hfront) hfound, ?_⟩
    unfold readPairs at hpairs ⊢
    rw [List.map_cons, List.map_cons, hpairs, name_bytes_spans hfront, value_bytes_spans hfront]
    rfl

theorem addedAttrs_scannable (hplain : PlainPacket clock packet)
    (hspace : ∀ c ∈ space, whitespace c = true) :
    ∀ a ∈ addedAttrs (bptBytes packet.fromHost) space packet.toBuilderPacket, a.Scannable := by
  have hfrom := @builtAttr_written space _ "from" hspace (by decide)
    (plainText_fromText hplain).not_quoted
  have hto := @builtAttr_written [] _ "to" (List.forall_mem_nil _) (by decide)
    hplain.toJid.not_quoted
  have htype := @builtAttr_written [] _ "type" (List.forall_mem_nil _) (by decide)
    (@plainText_typeName packet.name packet.type).not_quoted
  unfold addedAttrs
  intro a ha
  rcases List.mem_append.mp ha with ha | ha
  · rcases List.mem_append.mp ha with ha | ha
    · rw [List.mem_singleton.mp ha]
      exact hfrom.scannable
    · split at ha
      · cases ha
      · rw [List.mem_singleton.mp ha]
        exact hto.scannable
  · split at ha
    · cases ha
    · rw [List.mem_singleton.mp ha]
      exact htype.scannable

/-- An attribute begins with white space. -/
theorem exists_white {a : AttrText} {more : List AttrText} {rest : Bytes}
    (h : a.lead ≠ [] ∧ ∀ c ∈ a.lead, whitespace c = true) :
    ∃ c front, attrsText (a :: more) ++ rest = c :: front ∧ NameEnds c := by
  obtain ⟨c, lead, hlead⟩ := List.exists_cons_of_ne_nil h.1
  refine ⟨c, lead ++ (a.name ++ a.rest ++ (attrsText more ++ rest)), ?_, ?_⟩
  · rw [attrsText_cons, AttrText.text, hlead]
    simp
  · exact nameEnds_of_white (h.2 c (by rw [hlead]; exact List.mem_cons_self))

/-- The start tag of a stanza is read as its attributes. -/
theorem nextAttrs_rendering (hname : packet.name ≠ .unset) (hplain : PlainPacket clock packet)
    (hheader : HeaderText (bptBytes packet.header) attrs space)
    (h : rendering clock packet = some text) : ∃ name data found,
      xmlfsmNodeName text { data := 0, stop := text.length } = some (name, data) ∧
        stanzaNameOf text name = packet.name ∧ NextAttrs text data found ∧
        readPairs text found = (attrs ++ addedAttrs (bptBytes packet.fromHost) space
          packet.toBuilderPacket).map AttrText.pair := by
  obtain ⟨added, hadded, rfl⟩ := Option.map_eq_some_iff.mp h
  have hscannable : ∀ a ∈ attrs ++ addedAttrs (bptBytes packet.fromHost) space
      packet.toBuilderPacket, a.Scannable := by
    intro a ha
    rcases List.mem_append.mp ha with ha | ha
    · exact (hheader.attrs a ha).scannable
    · exact addedAttrs_scannable hplain hheader.space a ha
  -- what follows the start tag
  obtain ⟨rest, hrest⟩ : ∃ rest, builderHead (bptBytes packet.fromHost) packet.toBuilderPacket ++
      (bptBytes packet.userData ++ added) ++ delayText clock packet ++ endTag packet.name
        = tagStart packet.name ++ (attrsText (attrs ++ addedAttrs (bptBytes packet.fromHost) space
          packet.toBuilderPacket) ++ ch '>' :: rest) := by
    refine ⟨bptBytes packet.userData ++ added ++ delayText clock packet ++ endTag packet.name, ?_⟩
    rw [builderHead_attrs hheader.text]
    simp [lit]
  -- the name ends at the white space of the first attribute
  obtain ⟨c, front, hfront, hc⟩ : ∃ c front, attrsText (attrs ++ addedAttrs
      (bptBytes packet.fromHost) space packet.toBuilderPacket) ++ ch '>' :: rest = c :: front ∧
        NameEnds c := by
    cases attrs with
    | nil =>
      refine exists_white ⟨by simp [builtAttr, lit], fun c hc => ?_⟩
      rcases List.mem_append.mp hc with hc | hc
      · exact hheader.space c hc
      · rw [List.mem_singleton.mp hc]
        rfl
    | cons a attrs => exact exists_white (hheader.attrs a List.mem_cons_self).lead
  obtain ⟨hnode, hstanza⟩ := @nodeName_of_tagStart packet.name c front hname hc
  obtain ⟨found, hfound, hpairs⟩ := @nextAttrs_text _ (tagStart packet.name ++ c :: front) rest
    (tagStart packet.name).length hscannable (by rw [List.drop_left, hfront])
  rw [hrest, hfront]
  exact ⟨_, _, found, hnode, hstanza, hfound, hpairs⟩

/-- A stanza is framed: its text is one node, whatever follows it, and the attributes of its start
tag are those of the header, then `from` and, if the packet has them, `to` and `type`, each once. -/
structure FramedStanza (attrs : List AttrText) (packet : OutgoingPacket) (bytes : Bytes) :
    Prop where
  node : ∀ tail : Bytes, xmlfsmSkipNode (bytes ++ tail)
    { data := 0, stop := (bytes ++ tail).length } = some (some bytes.length)
  start : ∃ name data found,
    xmlfsmNodeName bytes { data := 0, stop := bytes.length } = some (name, data) ∧
      stanzaNameOf bytes name = packet.name ∧ NextAttrs bytes data found ∧
      readPairs bytes found = attrs.map AttrText.pair ++
        [(lit "from", fromText (bptBytes packet.fromHost) packet.toBuilderPacket)] ++
        (if jidEmpty packet.toJid then [] else [(lit "to", jidStr packet.toJid)]) ++
        (if packet.type = 0 then [] else [(lit "type", typeName packet.name packet.type)])

theorem framedStanza_rendering (hname : packet.name ≠ .unset) (hplain : PlainPacket clock packet)
    (hheader : HeaderText (bptBytes packet.header) attrs space)
    (htext : rendering clock packet = some text) : FramedStanza attrs packet text where
  node := by
    intro tail
    have hskip := (wholeNode_rendering hname hplain hheader htext).skipNode [] tail
    simpa using hskip
  start := by
    obtain ⟨name, data, found, hnode, hstanza, hfound, hpairs⟩ :=
      nextAttrs_rendering hname hplain hheader htext
    refine ⟨name, data, found, hnode, hstanza, hfound, hpairs.trans ?_⟩
    unfold addedAttrs
    rw [List.map_append, List.map_append, List.map_append, ← List.append_assoc,
      ← List.append_assoc]
    congr 1
    · congr 1
      split <;> rfl
    · split <;> rfl

/-- A bracket behind the offset of the time zone: its end tag only makes up for the bracket, and the
stanza does not come to an end. -/
theorem not_framed_time (hname : packet.name = .iq) (hplain : PlainPacket clock packet)
    (hheader : HeaderText (bptBytes packet.header) attrs space) {tzo : Bytes}
    (htzo : PlainText tzo) : ¬ FramedStanza attrs packet
      (timeStanza clock packet (tzo ++ lit "<")) := by
  intro h
  have htime : Moves (between 1 none) (between 2 none) (lit "<time xmlns='urn:xmpp:time'>") :=
    moves_lit (by decide)
  have hopen : Moves (between 2 none) (between 3 none) (lit "<tzo>") := moves_lit (by decide)
  -- the bracket and that of the end tag open two elements, and one is closed
  have hbracket : Moves (between 3 none) (inTag 4) (lit "<") := moves_lit (by decide)
  have hutc : Moves (inTag 4) (between 4 none) (lit "</tzo><utc>") := moves_lit (by decide)
  have hmark : Moves (between 4 none) (between 4 none) (lit "Z") := moves_lit (by decide)
  have hutcEnd : Moves (between 4 none) (between 3 none) (lit "</utc>") := moves_lit (by decide)
  have htimeEnd : Moves (between 3 none) (between 2 none) (lit "</time>") := moves_lit (by decide)
  have hdelay : Moves (between 2 none) (between 2 none) (delayText clock packet) :=
    @Moves.shift (between 1 none) (between 1 none) _ 1 (moves_delayText hplain) (by decide)
  have hend : Moves (between 2 none) (between 1 none) (endTag packet.name) := by
    rw [hname]
    exact moves_lit (by decide)
  have hzone := hopen.append ((moves_text htzo).append hbracket)
  have hreply := htime.append ((((hzone.append hutc).append
    (moves_text (plainText_date clock clock.time true))).append hmark).append hutcEnd)
    |>.append htimeEnd
  have hmoves : Moves (between 0 none) (between 1 none)
      (timeStanza clock packet (tzo ++ lit "<")) :=
    (((moves_builderHead (by rw [hname]; decide) hplain hheader).append
      ((moves_elements hplain.userData (by decide)).append hreply)).append hdelay).append hend
  have hnode := h.node []
  rw [List.append_nil] at hnode
  have hskip := skipNode_text [] (timeStanza clock packet (tzo ++ lit "<"))
  rw [List.nil_append, skipNodeLoop_text] at hskip
  have hnone : TextScan.skip {} (timeStanza clock packet (tzo ++ lit "<")) = none := hmoves.skip_none
  rw [List.length_nil, hnode, hnone] at hskip
  cases hskip

/-- **When a stanza that is built is framed**: for every packet but the answers to queries for the
time. -/
theorem built_framed_iff (hname : packet.name ≠ .unset) (hplain : PlainPacket clock packet)
    (hheader : HeaderText (bptBytes packet.header) attrs space) :
    (∀ stray (buffer buffer' : BuilderBuffer), buffer.Empty →
      builderBuildInto stray clock packet buffer = some (buffer', true) →
        FramedStanza attrs packet buffer'.bytes) ↔ ¬ TellsTime clock packet := by
  constructor
  · intro h htells
    have hlen := htells.2.2.2
    have hzone := @zoneText_moving clock [ch '<', 0, 0] rfl (by decide) hlen
    obtain ⟨pushed, hpushed, htext⟩ := Option.map_eq_some_iff.mp (texts_time htells hzone)
    obtain ⟨buffer', built, hrun, hspec⟩ :=
      builderBuildInto_pushed hpushed (freshBuffer_empty (Output.texts pushed).length)
    obtain rfl : built = true := hspec.fits.mpr (Nat.le_refl _)
    have hframed := h _ _ _ (freshBuffer_empty _) hrun
    rw [hspec.bytes rfl, htext] at hframed
    have hplainZone : PlainText (clock.tzo ++ clock.zone.drop 4) :=
      plainText_append.mpr ⟨plainText_tzo hplain.zone, plainText_drop hplain.zone 4⟩
    exact not_framed_time htells.1 hplain hheader hplainZone hframed
  · intro htells stray buffer buffer' hbuffer hbuilt
    exact framedStanza_rendering hname hplain hheader (rendering_of_built htells hbuffer hbuilt)

end Stanza

/-- A groupchat message from the history of a room. -/
def delayedPacket : OutgoingPacket where
  name := .message
  type := stanzaMessageGroupchat
  fromNode := some (lit "den")
  fromHost := some (lit "localhost")
  fromNick := some (lit "bob")
  toJid := { node := some (lit "al"), host := some (lit "example"), resource := none }
  header := some (lit " id='1'")
  userData := some (lit "<body>hi</body>")
  delay := 1330000496
  uname := { sysname := [], machine := [], release := [] }
  stats := none

/-- `<body>hi</body>` -/
def bodyContent : XmlContent :=
  .node { name := lit "body", attrs := [], space := [] } (.chars (lit "hi") .nil) [] .nil

theorem elements_body : Elements (lit "<body>hi</body>") := by
  refine ⟨bodyContent, ?_, ?_, by decide⟩
  · exact @wellFormed_texted (lit "body") (lit "hi") (by decide) (by decide)
  · intro run hrun
    have hrun : run = lit "hi" := by simpa [bodyContent, XmlContent.tokens] using hrun
    rw [hrun]
    decide

theorem plainPacket_delayed : PlainPacket uptimeClock delayedPacket where
  fromNode := by decide
  fromHost := by decide
  fromNick := by decide
  toJid := by decide
  userData := elements_body
  sysData := trivial
  sysname := by decide
  machine := by decide
  release := by decide
  zone := by decide

theorem headerText_delayed :
    HeaderText (bptBytes delayedPacket.header) [builtAttr (lit " ") "id" (lit "1")] [] where
  text := by decide
  attrs := by
    intro a ha
    rw [List.mem_singleton.mp ha]
    refine ⟨⟨by decide, List.all_eq_true.mp (by decide)⟩, by decide, ⟨[], [], by simp, rfl⟩,
      .inl rfl, by decide⟩
  space := List.forall_mem_nil _

theorem plainPacket_time : PlainPacket utcClock timePacket where
  fromNode := by decide
  fromHost := by decide
  fromNick := by decide
  toJid := by decide
  userData := ⟨.nil, List.forall_mem_nil _, fun _ hrun => absurd hrun List.not_mem_nil, rfl⟩
  sysData := trivial
  sysname := by decide
  machine := by decide
  release := by decide
  zone := by decide

theorem headerText_time : HeaderText (bptBytes timePacket.header) [] [] where
  text := rfl
  attrs := List.forall_mem_nil _
  space := List.forall_mem_nil _

set_option maxRecDepth 100000 in
/-- A program that copies two bytes and then one answers a query for the time, with a bracket left
on its stack: the end of the stanza is not found. -/
theorem time_unframed : PlainPacket utcClock timePacket ∧
    HeaderText (bptBytes timePacket.header) [] [] ∧
    ∃ buffer', builderBuildInto (movingStray [ch '<', 0, 0] rfl) utcClock timePacket (freshBuffer 256)
        = some (buffer', true) ∧
      buffer'.bytes = lit ("<iq from='localhost' type='result'><time xmlns='urn:xmpp:time'>" ++
        "<tzo>+00:000<</tzo><utc>2012-02-23T12:47:14Z</utc></time></iq>") ∧
      xmlfsmSkipNode buffer'.bytes { data := 0, stop := buffer'.bytes.length } = some none := by
  have hany : (builderBuildInto (movingStray [ch '<', 0, 0] rfl) utcClock timePacket
      (freshBuffer 256)).any (fun r => r.2 && (r.1.bytes == lit
        ("<iq from='localhost' type='result'><time xmlns='urn:xmpp:time'>" ++
          "<tzo>+00:000<</tzo><utc>2012-02-23T12:47:14Z</utc></time></iq>") &&
        xmlfsmSkipNode r.1.bytes { data := 0, stop := r.1.bytes.length } == some none)) = true := by
    decide +kernel
  obtain ⟨⟨buffer', built⟩, hrun, hfacts⟩ := (Option.any_eq_true _ _).mp hany
  obtain ⟨hbuilt, hfacts⟩ := Bool.and_eq_true_iff.mp hfacts
  obtain ⟨hbytes, hskip⟩ := Bool.and_eq_true_iff.mp hfacts
  obtain rfl : built = true := hbuilt
  exact ⟨plainPacket_time, headerText_time, buffer', hrun, beq_iff_eq.mp hbytes, beq_iff_eq.mp hskip⟩

theorem not_tellsTime_delayed : ¬ TellsTime uptimeClock delayedPacket :=
  fun h => absurd h.1 (by decide)

theorem built_framed_iff_delayed : ∃ buffer',
    builderBuildInto (movingStray [0, 0, 0] rfl) uptimeClock delayedPacket (freshBuffer 512)
      = some (buffer', true) ∧
    FramedStanza [builtAttr (lit " ") "id" (lit "1")] delayedPacket buffer'.bytes := by
  have hlength : ((rendering uptimeClock delayedPacket).map List.length) = some 233 := by
    decide +kernel
  obtain ⟨text, htext, hlength⟩ := Option.map_eq_some_iff.mp hlength
  obtain ⟨buffer', built, hbuild, hspec⟩ :=
    @builderBuildInto_text (movingStray [0, 0, 0] rfl) _ _ _ _ not_tellsTime_delayed htext
      (freshBuffer_empty 512)
  obtain rfl : built = true := hspec.fits.mpr (by rw [hlength]; decide)
  exact ⟨buffer', hbuild, (built_framed_iff (by decide) plainPacket_delayed headerText_delayed).mpr
    not_tellsTime_delayed _ _ _ (freshBuffer_empty 512) hbuild⟩

end Mukite
