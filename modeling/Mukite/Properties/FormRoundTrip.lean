import Mukite.Properties.FormFields
import Mukite.Properties.Settings

/-!
# A configuration form that is sent back

The form that `build_room_config` renders, read by `room_config_parse` as it is: every field sets
its option to the value that the room has (`formFields_sets`). All of this changes nothing
(`setFlag_self`), except that the title, the description and the password are texts afterwards,
where they may have been null pointers before (`roomConfigParse_form`).

For the title and the description that makes no difference. For the password it does: a room that
is protected but has no password lets everybody in, and a room whose password is the empty text
does not (`form_kept_iff`).
-/

namespace Mukite

open Flags TextScan

/-! ## What a form can say -/

/-- Settings that a form can repeat: the texts fit, and there is a choice for each number. -/
structure Settings.Repeatable (settings : Settings) : Prop where
  title : bptSize settings.title ≤ userStringOptionLimit
  description : bptSize settings.description ≤ userStringOptionLimit
  defaultRole : settings.defaultRole = roleParticipant ∨ settings.defaultRole = roleVisitor
  maxOccupants : 0 < settings.maxOccupants ∧ settings.maxOccupants ≤ participantsLimit

section Reachable

variable {room room' : Room} {node : Bytes}

theorem Settings.Repeatable.change (h : room.settings.Repeatable) (hc : ConfigChange room room') :
    room'.settings.Repeatable := by
  cases hc with
  | unchanged => exact h
  | title b hb => exact ⟨hb, h.description, h.defaultRole, h.maxOccupants⟩
  | description b hb => exact ⟨h.title, hb, h.defaultRole, h.maxOccupants⟩
  | password b => exact ⟨h.title, h.description, h.defaultRole, h.maxOccupants⟩
  | flag flag hf on => exact h
  | maxUsers n hpos hle => exact ⟨h.title, h.description, h.defaultRole, hpos, hle⟩
  | defaultRole r hr => exact ⟨h.title, h.description, hr, h.maxOccupants⟩

/-- **Every reachable room has such settings.** -/
theorem repeatable_of_reach (h : Machine.Reach roomStep (fun _ _ => True) (roomInit node) room) :
    room.settings.Repeatable := by
  refine h.invariant (I := fun room => room.settings.Repeatable) ?_ ?_
  · refine ⟨Nat.zero_le _, Nat.zero_le _, .inl rfl, ?_⟩
    show 0 < (100 : Int) ∧ (100 : Int) ≤ participantsLimit
    decide
  · intro room stanza room' sent h _ hs
    rcases roomStep_settings hs with hsame | ⟨-, -, options, level, form, -, happlied, hform⟩
    · exact hsame ▸ h
    · rw [hform]
      exact happlied.keeps (I := fun room => room.settings.Repeatable)
        (fun _ _ option _ hb hset => hb.change (roomConfigOptionSet_change _ _ _ _ _ _ hset)) h

end Reachable

/-! ## The fields -/

/-- A switch of the form, and what it does. -/
def flagField (room : Room) (label var : String) (flag : MucFlags) :
    FormField × (Room → Room) :=
  ({ type := "boolean", label := label, var := var, data := pushBool (room.hasFlag flag),
     options := [] }, fun r => r.setFlag flag (room.hasFlag flag))

def formTypeField : FormField × (Room → Room) :=
  ({ type := "hidden", label := "", var := "FORM_TYPE",
     data := lit "http://jabber.org/protocol/muc#roomconfig", options := [] }, id)

def titleField (room : Room) : FormField × (Room → Room) :=
  ({ type := "text-single", label := "Room title", var := "muc#roomconfig_roomname",
     data := bptBytes room.title, options := [] },
    fun r => { r with title := some (bptBytes room.title) })

def descriptionField (room : Room) : FormField × (Room → Room) :=
  ({ type := "text-single", label := "Room description", var := "muc#roomconfig_roomdesc",
     data := bptBytes room.description, options := [] },
    fun r => { r with description := some (bptBytes room.description) })

/-- The only option that depends on who submits the form. -/
def persistentField (room : Room) (acl : Int) : FormField × (Room → Room) :=
  ((flagField room "Make room persistent" "muc#roomconfig_persistentroom" mucFlagPersistentroom).1,
    fun r => if acl ≥ aclMucPersist then
      r.setFlag mucFlagPersistentroom (room.hasFlag mucFlagPersistentroom) else r)

def protectedField (room : Room) : FormField × (Room → Room) :=
  flagField room "Make room password protected" "muc#roomconfig_passwordprotectedroom"
    mucFlagPasswordprotectedroom

def secretField (room : Room) : FormField × (Room → Room) :=
  ({ type := "text-private", label := "Password", var := "muc#roomconfig_roomsecret",
     data := bptBytes room.password, options := [] },
    fun r => { r with password := some (bptBytes room.password) })

def maxUsersField (room : Room) : FormField × (Room → Room) :=
  ({ type := "list-single", label := "Maximum Number of Occupants", var := "muc#roomconfig_maxusers",
     data := lit (toString room.participants.maxSize),
     options := [("5", "5"), ("10", "10"), ("20", "20"), ("30", "30"), ("50", "50"),
       ("100", "100"), ("200", "200"), ("500", "500"), ("1000", "1000")] },
    fun r => { r with
      participants := { r.participants with maxSize := room.participants.maxSize } })

def whoisField (room : Room) : FormField × (Room → Room) :=
  ({ type := "list-single", label := "Present real Jabber IDs to", var := "muc#roomconfig_whois",
     data := if room.hasFlag mucFlagSemianonymous then lit "moderators" else lit "anyone",
     options := [("moderators only", "moderators"), ("anyone", "anyone")] },
    fun r => r.setFlag mucFlagSemianonymous (room.hasFlag mucFlagSemianonymous))

def defaultRoleField (room : Room) : FormField × (Room → Room) :=
  ({ type := "boolean", label := "Default users as participants", var := "members_by_default",
     data := pushBool (room.defaultRole == roleParticipant), options := [] },
    fun r => { r with
      defaultRole := if room.defaultRole = roleParticipant then roleParticipant else roleVisitor })

/-- The fields of the form of a room, in their order, and what each of them does to a room. -/
def formFields (room : Room) (acl : Int) : List (FormField × (Room → Room)) :=
  [formTypeField, titleField room, descriptionField room, persistentField room acl,
    flagField room "Make room public searchable" "muc#roomconfig_publicroom" mucFlagPublicroom,
    flagField room "Make participants list public" "public_list" mucFlagPublicparticipants,
    protectedField room, secretField room, maxUsersField room, whoisField room,
    flagField room "Make room members-only" "muc#roomconfig_membersonly" mucFlagMembersonly,
    flagField room "Make room moderated" "muc#roomconfig_moderatedroom" mucFlagModeratedroom,
    defaultRoleField room,
    flagField room "Allow users to change the subject" "muc#roomconfig_changesubject"
      mucFlagChangesubject,
    flagField room "Allow users to send private messages" "allow_private_messages" mucFlagAllowpm,
    flagField room "Allow users to query other users" "allow_query_users" mucFlagIqProxy,
    flagField room "Allow users to send invites" "muc#roomconfig_allowinvites" mucFlagInvites,
    flagField room "Allow visitors to send private messages" "muc#roomconfig_allowvisitorspm"
      mucFlagVisitorspm,
    flagField room "Allow visitors to send custom status and change nickname"
      "muc#roomconfig_allowvisitorpresence" mucFlagVisitorpresence,
    flagField room "Enable built-in bot (MewCat)" "muc#roomconfig_mewcat" mucFlagMewcat]

section Fields

variable {room : Room} {acl : Int} {label : String} {flag : MucFlags}

theorem readable_flagField {var : String} (hlabel : PlainText (lit label))
    (hvar : PlainText (lit var)) : (flagField room label var flag).1.Readable where
  type := plainText_lit (by decide)
  label := hlabel
  var := hvar
  data := by
    show Escaped (pushBool (room.hasFlag flag))
    cases room.hasFlag flag <;> decide
  options := fun _ h => absurd h List.not_mem_nil

/-- A switch is set as it is printed. -/
theorem setFlagOption_eq {mem : Bytes} {value : Span} {on : Bool} (r : Room)
    (h : SpanIs mem value (pushBool on)) : setFlagOption r flag mem value = r.setFlag flag on := by
  unfold setFlagOption
  rw [h.btoi_pushBool]

/-- The switches that anybody who submits a form may set. -/
def flagOptions : List (String × MucFlags) :=
  [("muc#roomconfig_publicroom", mucFlagPublicroom), ("public_list", mucFlagPublicparticipants),
    ("muc#roomconfig_membersonly", mucFlagMembersonly),
    ("muc#roomconfig_moderatedroom", mucFlagModeratedroom),
    ("muc#roomconfig_changesubject", mucFlagChangesubject),
    ("allow_private_messages", mucFlagAllowpm), ("allow_query_users", mucFlagIqProxy),
    ("muc#roomconfig_allowinvites", mucFlagInvites),
    ("muc#roomconfig_allowvisitorspm", mucFlagVisitorspm),
    ("muc#roomconfig_allowvisitorpresence", mucFlagVisitorpresence),
    ("muc#roomconfig_mewcat", mucFlagMewcat)]

theorem sets_flagField {var : String} (hm : (var, flag) ∈ flagOptions) :
    (flagField room label var flag).1.Sets acl (flagField room label var flag).2 := by
  intro mem name value r hname hvalue
  have hset : roomConfigOptionSet r mem name value acl = some (setFlagOption r flag mem value) := by
    change SpanIs mem name (lit var) at hname
    simp only [flagOptions, List.mem_cons, Prod.mk.injEq, List.not_mem_nil, or_false] at hm
    unfold roomConfigOptionSet
    dsimp only
    -- the names before the one of the option are others
    rcases hm with ⟨rfl, rfl⟩ | ⟨rfl, rfl⟩ | ⟨rfl, rfl⟩ | ⟨rfl, rfl⟩ | ⟨rfl, rfl⟩ | ⟨rfl, rfl⟩ |
      ⟨rfl, rfl⟩ | ⟨rfl, rfl⟩ | ⟨rfl, rfl⟩ | ⟨rfl, rfl⟩ | ⟨rfl, rfl⟩ <;>
    · repeat refine (if_neg (hname.not_lit (by decide))).trans ?_
      exact if_pos hname.is_lit
  rw [hset, setFlagOption_eq r hvalue]
  rfl

theorem sets_formType : formTypeField.1.Sets acl formTypeField.2 := by
  intro mem var value r hvar _
  change SpanIs mem var (lit "FORM_TYPE") at hvar
  unfold roomConfigOptionSet
  dsimp only
  repeat refine (if_neg (hvar.not_lit (by decide))).trans ?_
  rfl

theorem sets_title (h : bptSize room.title ≤ userStringOptionLimit) :
    (titleField room).1.Sets acl (titleField room).2 := by
  intro mem var value r hvar hvalue
  have hsize : value.size ≤ userStringOptionLimit := by
    rw [hvalue.size]
    exact Int.ofNat_le.mpr h
  unfold roomConfigOptionSet
  dsimp only
  refine (if_pos hvar.is_lit).trans ?_
  rw [if_pos hsize, hvalue.copy]
  rfl

theorem sets_description (h : bptSize room.description ≤ userStringOptionLimit) :
    (descriptionField room).1.Sets acl (descriptionField room).2 := by
  intro mem var value r hvar hvalue
  change SpanIs mem var (lit "muc#roomconfig_roomdesc") at hvar
  have hsize : value.size ≤ userStringOptionLimit := by
    rw [hvalue.size]
    exact Int.ofNat_le.mpr h
  unfold roomConfigOptionSet
  dsimp only
  refine (if_neg (hvar.not_lit (by decide))).trans ?_
  refine (if_pos hvar.is_lit).trans ?_
  rw [if_pos hsize, hvalue.copy]
  rfl

theorem sets_persistent : (persistentField room acl).1.Sets acl (persistentField room acl).2 := by
  intro mem var value r hvar hvalue
  change SpanIs mem var (lit "muc#roomconfig_persistentroom") at hvar
  unfold roomConfigOptionSet
  dsimp only
  repeat refine (if_neg (hvar.not_lit (by decide))).trans ?_
  refine (if_pos hvar.is_lit).trans ?_
  rw [setFlagOption_eq r hvalue]
  exact (apply_ite some _ _ _).symm

/-- The test of the size belongs to the next option; a switch passes it. -/
theorem sets_protected : (protectedField room).1.Sets acl (protectedField room).2 := by
  intro mem var value r hvar hvalue
  change SpanIs mem var (lit "muc#roomconfig_passwordprotectedroom") at hvar
  have hsize : value.size ≤ userStringOptionLimit := by
    rw [hvalue.size]
    show (((pushBool (room.hasFlag mucFlagPasswordprotectedroom)).length : Nat) : Int) ≤ _
    cases room.hasFlag mucFlagPasswordprotectedroom <;> decide
  unfold roomConfigOptionSet
  dsimp only
  repeat refine (if_neg (hvar.not_lit (by decide))).trans ?_
  refine (if_pos hvar.is_lit).trans ?_
  rw [if_pos hsize, setFlagOption_eq r hvalue]
  rfl

theorem sets_secret : (secretField room).1.Sets acl (secretField room).2 := by
  intro mem var value r hvar hvalue
  change SpanIs mem var (lit "muc#roomconfig_roomsecret") at hvar
  unfold roomConfigOptionSet
  dsimp only
  repeat refine (if_neg (hvar.not_lit (by decide))).trans ?_
  refine (if_pos hvar.is_lit).trans ?_
  rw [hvalue.copy]
  rfl

theorem sets_maxUsers (hpos : 0 < room.participants.maxSize)
    (hle : room.participants.maxSize ≤ participantsLimit) :
    (maxUsersField room).1.Sets acl (maxUsersField room).2 := by
  intro mem var value r hvar hvalue
  change SpanIs mem var (lit "muc#roomconfig_maxusers") at hvar
  change SpanIs mem value (lit (toString room.participants.maxSize)) at hvalue
  have hlimit : participantsLimit = 1024 := rfl
  have hwanted := hvalue.btoi_toString (by omega) (by omega)
  have hmax : maxUsersOption mem value = room.participants.maxSize := by
    unfold maxUsersOption
    rw [hwanted]
    exact if_neg (by omega)
  unfold roomConfigOptionSet
  dsimp only
  repeat refine (if_neg (hvar.not_lit (by decide))).trans ?_
  refine (if_pos hvar.is_lit).trans ?_
  rw [hmax]
  rfl

theorem sets_whois : (whoisField room).1.Sets acl (whoisField room).2 := by
  intro mem var value r hvar hvalue
  change SpanIs mem var (lit "muc#roomconfig_whois") at hvar
  change SpanIs mem value (if room.hasFlag mucFlagSemianonymous then lit "moderators"
    else lit "anyone") at hvalue
  have hon : value.eqLit mem "moderators" = room.hasFlag mucFlagSemianonymous := by
    rw [hvalue.eqLit]
    cases room.hasFlag mucFlagSemianonymous <;> decide
  unfold roomConfigOptionSet
  dsimp only
  repeat refine (if_neg (hvar.not_lit (by decide))).trans ?_
  refine (if_pos hvar.is_lit).trans ?_
  rw [hon]
  rfl

theorem sets_defaultRole : (defaultRoleField room).1.Sets acl (defaultRoleField room).2 := by
  intro mem var value r hvar hvalue
  change SpanIs mem var (lit "members_by_default") at hvar
  change SpanIs mem value (pushBool (room.defaultRole == roleParticipant)) at hvalue
  have hon := hvalue.btoi_pushBool
  have hrole : (if btoi mem value ≠ 0 then roleParticipant else roleVisitor)
      = if room.defaultRole = roleParticipant then roleParticipant else roleVisitor := by
    by_cases hd : room.defaultRole = roleParticipant
    · rw [beq_iff_eq.mpr hd] at hon
      rw [if_pos hd, if_pos (bne_iff_ne.mp hon)]
    · rw [beq_eq_false_iff_ne.mpr hd] at hon
      rw [if_neg hd, if_neg (by simpa using hon)]
  unfold roomConfigOptionSet
  dsimp only
  repeat refine (if_neg (hvar.not_lit (by decide))).trans ?_
  refine (if_pos hvar.is_lit).trans ?_
  rw [hrole]
  rfl

/-- **Every field sets its option to what the room has.** -/
theorem formFields_sets (h : room.settings.Repeatable) :
    ∀ item ∈ formFields room acl, item.1.Sets acl item.2 := by
  have hflag : ∀ {label var flag}, (var, flag) ∈ flagOptions →
      (flagField room label var flag).1.Sets acl (flagField room label var flag).2 :=
    fun hm => sets_flagField hm
  unfold formFields
  simp only [List.forall_mem_cons, List.not_mem_nil, false_imp_iff, implies_true, and_true]
  exact ⟨sets_formType, sets_title h.title, sets_description h.description, sets_persistent,
    hflag (by simp [flagOptions]), hflag (by simp [flagOptions]), sets_protected, sets_secret,
    sets_maxUsers h.maxOccupants.1 h.maxOccupants.2, sets_whois, hflag (by simp [flagOptions]),
    hflag (by simp [flagOptions]), sets_defaultRole, hflag (by simp [flagOptions]),
    hflag (by simp [flagOptions]), hflag (by simp [flagOptions]), hflag (by simp [flagOptions]),
    hflag (by simp [flagOptions]), hflag (by simp [flagOptions]), hflag (by simp [flagOptions])⟩

end Fields

section Readable

variable {room : Room} {acl : Int}

/-- The texts of a room that a form shows, as the server sends texts: escaped. -/
structure EscapedTexts (room : Room) : Prop where
  node : Escaped (bptBytes room.node)
  title : Escaped (bptBytes room.title)
  description : Escaped (bptBytes room.description)
  password : Escaped (bptBytes room.password)

theorem escaped_pushBool (value : Bool) : Escaped (pushBool value) := by
  cases value <;> decide

theorem plainText_choice {label value : List Char} (hlabel : PlainText (label.map ch))
    (hvalue : PlainText (value.map ch)) :
    PlainText (lit (String.ofList label)) ∧ PlainText (lit (String.ofList value)) :=
  ⟨plainText_lit hlabel, plainText_lit hvalue⟩

/-- **Every field can be read back.** -/
theorem formFields_readable (h : EscapedTexts room) :
    ∀ item ∈ formFields room acl, item.1.Readable := by
  have hnone : ∀ option ∈ ([] : List (String × String)),
      PlainText (lit option.1) ∧ PlainText (lit option.2) :=
    fun _ h => absurd h List.not_mem_nil
  have hmaxUsers : (maxUsersField room).1.Readable := by
    refine ⟨plainText_lit (by decide), plainText_lit (by decide), plainText_lit (by decide),
      (plainText_toString _).escaped, ?_⟩
    unfold maxUsersField
    simp only [List.forall_mem_cons, List.not_mem_nil, false_imp_iff, implies_true, and_true]
    exact ⟨plainText_choice (by decide) (by decide), plainText_choice (by decide) (by decide),
      plainText_choice (by decide) (by decide), plainText_choice (by decide) (by decide),
      plainText_choice (by decide) (by decide), plainText_choice (by decide) (by decide),
      plainText_choice (by decide) (by decide), plainText_choice (by decide) (by decide),
      plainText_choice (by decide) (by decide)⟩
  have hwhois : (whoisField room).1.Readable := by
    refine ⟨plainText_lit (by decide), plainText_lit (by decide), plainText_lit (by decide), ?_, ?_⟩
    · unfold whoisField
      cases room.hasFlag mucFlagSemianonymous <;> decide
    · unfold whoisField
      simp only [List.forall_mem_cons, List.not_mem_nil, false_imp_iff, implies_true, and_true]
      exact ⟨plainText_choice (by decide) (by decide), plainText_choice (by decide) (by decide)⟩
  have hflag : ∀ {label var : List Char} {flag}, PlainText (label.map ch) →
      PlainText (var.map ch) →
      (flagField room (String.ofList label) (String.ofList var) flag).1.Readable :=
    fun hlabel hvar => readable_flagField (plainText_lit hlabel) (plainText_lit hvar)
  unfold formFields
  simp only [List.forall_mem_cons, List.not_mem_nil, false_imp_iff, implies_true, and_true]
  refine ⟨?_, ?_, ?_, ?_, ?_, ?_, ?_, ?_, hmaxUsers, hwhois, ?_, ?_, ?_, ?_, ?_, ?_, ?_, ?_, ?_, ?_⟩
  · exact ⟨plainText_lit (by decide), plainText_nil, plainText_lit (by decide), by decide, hnone⟩
  · exact ⟨plainText_lit (by decide), plainText_lit (by decide), plainText_lit (by decide), h.title,
      hnone⟩
  · exact ⟨plainText_lit (by decide), plainText_lit (by decide), plainText_lit (by decide),
      h.description, hnone⟩
  iterate 4 exact hflag (by decide) (by decide)
  · exact ⟨plainText_lit (by decide), plainText_lit (by decide), plainText_lit (by decide),
      h.password, hnone⟩
  iterate 2 exact hflag (by decide) (by decide)
  · exact ⟨plainText_lit (by decide), plainText_lit (by decide), plainText_lit (by decide),
      escaped_pushBool _, hnone⟩
  iterate 7 exact hflag (by decide) (by decide)

end Readable

/-! ## The form -/

section Form

variable {room : Room} {acl : Int}

/-- What stands before the content of the form: the instructions and a start tag. -/
def formHead : Bytes :=
  lit "<instructions>You need an x:data capable client to configure room</instructions>" ++
    lit "<x xmlns='jabber:x:data' type='form'>"

/-- The title of the form, which is not the title of the room. -/
def formTitle (node : Bytes) : Bytes :=
  lit "<title>Configuration of room " ++ (node ++ lit "</title>")

theorem formTitle_node {node : Bytes} (h : Escaped node) :
    NamedNode (lit "title") (formTitle node) where
  whole := by
    have hopen : Moves (between 0 none) (between 1 none) (lit "<title>Configuration of room ") :=
      moves_lit (by decide)
    unfold formTitle
    rw [← List.append_assoc]
    exact wholeNode_of_moves (hopen.append (moves_escaped h)) (by decide)
  chars := by decide
  start := ⟨ch '>', lit "Configuration of room " ++ (node ++ lit "</title>"), rfl, by decide⟩

/-- It is no field. -/
theorem turns_formTitle {mem node : Bytes} (h : Escaped node) :
    Turns mem (fun room nodes => (configField mem acl room nodes).map .inl)
      (formTitle node, some) := by
  have hnode := formTitle_node h
  refine ⟨List.length_pos_iff.mpr hnode.whole.ne_nil, fun k stop rest room hmem hstop => ?_⟩
  dsimp only at hmem hstop
  refine ⟨_, hnode.nextSibling hmem hstop, rfl, ?_⟩
  have hname : (nodeAt (lit "title") (formTitle node) k stop).nodeName.eqLit mem "field"
      = false := by
    rw [(hnode.reads_name hmem).eqLit]
    decide
  show (configField mem acl room (nodeAt (lit "title") (formTitle node) k stop)).map Sum.inl
    = some (.inl room)
  unfold configField
  rw [hname]
  rfl

/-- The nodes of the form, and what each of them does to a room. -/
def formTurns (room : Room) (acl : Int) : List (Bytes × (Room → Option Room)) :=
  (formTitle (bptBytes room.node), some) ::
    (formFields room acl).map (fun item => (item.1.text, fun r => some (item.2 r)))

/-- **The form that is built consists of these nodes.** -/
theorem buildRoomConfig_eq (room : Room) (acl : Int) :
    buildRoomConfig room = formHead ++ (turnsText (formTurns room acl) ++ lit "</x>") := by
  have hstart : lit "<x xmlns='jabber:x:data' type='form'><title>Configuration of room "
      = lit "<x xmlns='jabber:x:data' type='form'>" ++ lit "<title>Configuration of room " := by
    decide
  have hfields : turnsText (formTurns room acl) = formTitle (bptBytes room.node) ++
      ((formFields room acl).map (fun item => item.1.text)).flatten := by
    unfold turnsText formTurns
    rw [List.map_cons, List.flatten_cons, List.map_map]
    rfl
  rw [hfields]
  unfold buildRoomConfig formFields formHead formTitle
  dsimp only
  rw [lit_append, hstart]
  simp only [List.map_cons, List.map_nil, List.flatten_cons, List.flatten_nil, List.append_assoc,
    List.nil_append]
  rfl

/-- The room with texts where there were null pointers. -/
def Room.withTexts (room : Room) : Room :=
  { room with
    title := some (bptBytes room.title)
    description := some (bptBytes room.description)
    password := some (bptBytes room.password) }

/-- A room that agrees with the form, whatever its texts are. -/
structure Agrees (room r : Room) : Prop where
  flags : r.flags = room.flags
  defaultRole : r.defaultRole = room.defaultRole
  participants : r.participants = room.participants

/-- Every flag of the form is one bit of the word. -/
theorem exists_bit {flag : MucFlags} (h : flag ∈ configFlags) :
    ∃ i : Nat, flag = 1#32 <<< i := by
  have hbits : configFlags.all (fun flag => (List.range 32).any (fun i => flag == 1#32 <<< i)) =
      true := by decide
  obtain ⟨i, -, hi⟩ := List.any_eq_true.mp (List.all_eq_true.mp hbits flag h)
  exact ⟨i, eq_of_beq hi⟩

namespace Agrees

variable {r : Room}

theorem setFlag (h : Agrees room r) {flag : MucFlags} (hflag : flag ∈ configFlags) :
    r.setFlag flag (room.hasFlag flag) = r := by
  obtain ⟨i, rfl⟩ := exists_bit hflag
  unfold Room.setFlag Room.hasFlag
  rw [← h.flags, put_isSet]

theorem flagField (h : Agrees room r) {label var : String} {flag : MucFlags}
    (hflag : flag ∈ configFlags) : (flagField room label var flag).2 r = r := h.setFlag hflag

theorem persistentField (h : Agrees room r) : (persistentField room acl).2 r = r := by
  show (if acl ≥ aclMucPersist then
    r.setFlag mucFlagPersistentroom (room.hasFlag mucFlagPersistentroom) else r) = r
  rw [h.setFlag (by decide), ite_self]

theorem protectedField (h : Agrees room r) : (protectedField room).2 r = r := h.setFlag (by decide)

theorem maxUsersField (h : Agrees room r) : (maxUsersField room).2 r = r := by
  show { r with participants := { r.participants with maxSize := room.participants.maxSize } } = r
  rw [← h.participants]

theorem whoisField (h : Agrees room r) : (whoisField room).2 r = r := h.setFlag (by decide)

theorem defaultRoleField (h : Agrees room r) (hr : room.settings.Repeatable) :
    (defaultRoleField room).2 r = r := by
  have hrole : (if room.defaultRole = roleParticipant then roleParticipant else roleVisitor)
      = r.defaultRole := by
    rw [h.defaultRole]
    rcases hr.defaultRole with hd | hd
    · rw [show room.defaultRole = roleParticipant from hd]
      rfl
    · rw [show room.defaultRole = roleVisitor from hd]
      rfl
  show { r with defaultRole :=
    if room.defaultRole = roleParticipant then roleParticipant else roleVisitor } = r
  rw [hrole]

end Agrees

/-- **The form of a room does nothing to it but write its texts.** -/
theorem formFields_acts (h : room.settings.Repeatable) :
    (formFields room acl).foldl (fun r item => item.2 r) room = room.withTexts := by
  -- before the password is written, and afterwards
  have hfront : Agrees room
      ((descriptionField room).2 ((titleField room).2 (formTypeField.2 room))) := ⟨rfl, rfl, rfl⟩
  have hback : Agrees room ((secretField room).2
      ((descriptionField room).2 ((titleField room).2 (formTypeField.2 room)))) := ⟨rfl, rfl, rfl⟩
  unfold formFields
  simp only [List.foldl_cons, List.foldl_nil]
  simp (disch := decide) only [hfront.persistentField, hfront.flagField, hfront.protectedField]
  simp (disch := decide) only [hback.maxUsersField, hback.whoisField, hback.flagField,
    hback.defaultRoleField h]
  rfl

/-- Turns that cannot fail, one after the other. -/
theorem runTurns_acts (items : List (FormField × (Room → Room))) : ∀ r : Room,
    runTurns (items.map (fun item => (item.1.text, fun r => some (item.2 r)))) r
      = some (items.foldl (fun r item => item.2 r) r) := by
  induction items with
  | nil => exact fun _ => rfl
  | cons item items ih => exact fun r => ih (item.2 r)

theorem runTurns_form (h : room.settings.Repeatable) :
    runTurns (formTurns room acl) room = some room.withTexts := by
  have hacts := runTurns_acts (formFields room acl) room
  rw [formFields_acts h] at hacts
  unfold runTurns formTurns at *
  rw [List.foldlM_cons, ← hacts]
  exact Option.bind_some _ _

/-- Where the content of the form stands, with the end tag behind it. -/
def formSpan (before : Bytes) (room : Room) : Span where
  data := before.length + formHead.length
  stop := before.length + (buildRoomConfig room).length

/--
**The form of a room, sent back as it is**, wherever in a memory block it stands: the room is
unchanged, but for the null pointers that are texts now.
-/
theorem roomConfigParse_form {before after : Bytes} (h : room.settings.Repeatable)
    (htexts : EscapedTexts room) :
    roomConfigParse room (before ++ (buildRoomConfig room ++ after)) (formSpan before room) acl
      = some room.withTexts := by
  have hturns : ∀ item ∈ formTurns room acl, Turns (before ++ (buildRoomConfig room ++ after))
      (fun r nodes => (configField (before ++ (buildRoomConfig room ++ after)) acl r nodes).map
        .inl) item := by
    intro item hitem
    rcases List.mem_cons.mp hitem with rfl | hitem
    · exact turns_formTitle htexts.node
    · obtain ⟨field, hfield, rfl⟩ := List.mem_map.mp hitem
      exact turns_field (formFields_readable htexts field hfield) (formFields_sets h field hfield)
  have htail : skipNodeLoop {} 0 (lit "</x>") = none := by decide
  have hmem : (before ++ (buildRoomConfig room ++ after)).drop (before.length + formHead.length)
      = turnsText (formTurns room acl) ++ (lit "</x>" ++ after) := by
    rw [← List.length_append, buildRoomConfig_eq room acl]
    simp only [List.append_assoc]
    rw [← List.append_assoc before, List.drop_left]
  have hloop := siblingLoop_turns hturns htail hmem (runTurns_form h)
  have hspan : formSpan before room = {
      data := before.length + formHead.length
      stop := before.length + formHead.length + (turnsText (formTurns room acl)).length +
        (lit "</x>").length } := by
    unfold formSpan
    rw [buildRoomConfig_eq room acl, List.length_append, List.length_append]
    simp only [Nat.add_assoc]
  unfold roomConfigParse
  rw [hspan, hloop]
  rfl

end Form

/-! ## The password of a protected room -/

/-- `route_presence` on the password of a newcomer: whether it keeps somebody out. -/
def passwordRefuses (room : Room) (affiliation : Int) (mem : Bytes) (password : Option Span) : Bool :=
  affiliation < affilOwner && room.hasFlag mucFlagPasswordprotectedroom && room.password.isSome &&
    !(password.any (fun p => p.eqBin mem (bptBytes room.password)))

/-- What a form does not change when it is sent back as it is. -/
structure FormKept (room room' : Room) : Prop where
  flags : room'.flags = room.flags
  defaultRole : room'.defaultRole = room.defaultRole
  maxOccupants : room'.participants.maxSize = room.participants.maxSize
  title : bptBytes room'.title = bptBytes room.title
  description : bptBytes room'.description = bptBytes room.description
  check : ∀ affiliation mem password,
    passwordRefuses room' affiliation mem password = passwordRefuses room affiliation mem password

section Kept

variable {room room' : Room}

/-- Who may enter depends on the password through this check alone. -/
theorem admission_of_check (hcheck : ∀ affiliation mem password,
      passwordRefuses room' affiliation mem password = passwordRefuses room affiliation mem password)
    (hflags : room'.flags = room.flags) (hparticipants : room'.participants = room.participants)
    (haffiliations : room'.affiliations = room.affiliations) (ingress : IncomingPacket)
    (mucNode : MucNode) (acl : ACLConfig) :
    admission room' ingress mucNode acl = admission room ingress mucNode acl := by
  have hflag : ∀ flag, room'.hasFlag flag = room.hasFlag flag := by
    intro flag
    unfold Room.hasFlag
    rw [hflags]
  have hsame := hcheck (affiliationssGetByJid room.affiliations acl ingress.realFrom) ingress.mem
    mucNode.password
  unfold passwordRefuses at hsame
  unfold admission
  dsimp only
  rw [hparticipants, haffiliations, hsame, hflag mucFlagMembersonly]

theorem formKept_withTexts : FormKept room room.withTexts ↔
    ¬ (room.hasFlag mucFlagPasswordprotectedroom = true ∧ room.password = none) := by
  constructor
  · rintro h ⟨hflag, hnull⟩
    -- somebody without a password, who is let in before and kept out afterwards
    have hcheck := h.check 0 [] none
    have hflag' : room.withTexts.hasFlag mucFlagPasswordprotectedroom = true := hflag
    have hsome : room.withTexts.password.isSome = true := rfl
    unfold passwordRefuses at hcheck
    rw [hflag, hflag', hsome, hnull, Option.any_none, Option.any_none] at hcheck
    exact absurd hcheck (by decide)
  · intro h
    refine ⟨rfl, rfl, rfl, rfl, rfl, fun affiliation mem password => ?_⟩
    have hflag' : room.withTexts.hasFlag mucFlagPasswordprotectedroom
        = room.hasFlag mucFlagPasswordprotectedroom := rfl
    unfold passwordRefuses
    rw [hflag']
    cases hflag : room.hasFlag mucFlagPasswordprotectedroom with
    | false => simp
    | true =>
      cases hpassword : room.password with
      | none => exact absurd ⟨hflag, hpassword⟩ h
      | some password =>
        have hsame : room.withTexts.password = some password := by
          unfold Room.withTexts
          rw [hpassword]
          rfl
        rw [hsame]

/--
**A form that is sent back as it is changes nothing, unless the room is protected and has no
password.** Then it gets one, the empty text: the form shows a null pointer and an empty text
alike, and the check of the password does not take them for the same.
-/
theorem form_kept_iff {node : Bytes}
    (h : Machine.Reach roomStep (fun _ _ => True) (roomInit node) room)
    (htexts : EscapedTexts room) (acl : Int) (before after : Bytes) :
    ∃ room', roomConfigParse room (before ++ (buildRoomConfig room ++ after))
        (formSpan before room) acl = some room' ∧
      (FormKept room room' ↔
        ¬ (room.hasFlag mucFlagPasswordprotectedroom = true ∧ room.password = none)) :=
  ⟨room.withTexts, roomConfigParse_form (repeatable_of_reach h) htexts, formKept_withTexts⟩

end Kept

instance (room : Room) : Decidable (EscapedTexts room) :=
  decidable_of_iff (Escaped (bptBytes room.node) ∧ Escaped (bptBytes room.title) ∧
      Escaped (bptBytes room.description) ∧ Escaped (bptBytes room.password))
    ⟨fun ⟨h₁, h₂, h₃, h₄⟩ => ⟨h₁, h₂, h₃, h₄⟩,
      fun h => ⟨h.node, h.title, h.description, h.password⟩⟩

/-- Alice enters a new room and submits a form with these fields. -/
def formByAlice (fields : List (String × String)) : List Stanza :=
  stanzasOfTexts openAcl 0 0 ["<presence from='alice@h/pc' to='room@conf/al'/>",
    "<iq type='set' from='alice@h/pc' to='room@conf' id='1'>" ++
      "<query xmlns='http://jabber.org/protocol/muc#owner'><x xmlns='jabber:x:data' type='submit'>" ++
      String.join (fields.map (fun field =>
        "<field var='muc#roomconfig_" ++ field.1 ++ "'><value>" ++ field.2 ++ "</value></field>")) ++
      "</x></query></iq>"]

/-- A title, and a password that is asked for. -/
def teaFields : List (String × String) :=
  [("roomname", "Tea"), ("roomsecret", "sesame"), ("passwordprotectedroom", "1")]

set_option maxRecDepth 100000 in
/-- The result for a room that has been configured. -/
theorem form_kept_tea : ∃ room room',
    Machine.run roomStep (roomInit (lit "room")) (formByAlice teaFields) = some room ∧
      room.title = some (lit "Tea") ∧ room.password = some (lit "sesame") ∧
      room.flags ≠ (roomInit (lit "room")).flags ∧
      room.hasFlag mucFlagPasswordprotectedroom = true ∧
      roomConfigParse room (lit "<query>" ++ (buildRoomConfig room ++ lit "</query>"))
        (formSpan (lit "<query>") room) aclMucPersist = some room' ∧ FormKept room room' := by
  have hany : (Machine.run roomStep (roomInit (lit "room")) (formByAlice teaFields)).any
      (fun room => room.title == some (lit "Tea") && room.password == some (lit "sesame") &&
        room.flags != (roomInit (lit "room")).flags &&
        room.hasFlag mucFlagPasswordprotectedroom && decide (EscapedTexts room)) = true := by
    decide +kernel
  obtain ⟨room, hrun, hfacts⟩ := (Option.any_eq_true _ _).mp hany
  simp only [Bool.and_eq_true, beq_iff_eq, bne_iff_ne, decide_eq_true_eq] at hfacts
  obtain ⟨⟨⟨⟨htitle, hpassword⟩, hflags⟩, hprotected⟩, htexts⟩ := hfacts
  have hreach : Machine.Reach roomStep (fun _ _ => True) (roomInit (lit "room")) room :=
    .run .start (fun _ _ _ => trivial) hrun
  obtain ⟨room', hparse, hkept⟩ :=
    form_kept_iff hreach htexts aclMucPersist (lit "<query>") (lit "</query>")
  refine ⟨room, room', hrun, htitle, hpassword, hflags, hprotected, hparse, hkept.mpr ?_⟩
  rintro ⟨-, hnull⟩
  rw [hpassword] at hnull
  cases hnull

set_option maxRecDepth 100000 in
/-- A room that Alice protects before it has a password is closed by its own form. -/
theorem form_closes_room : ¬ ∀ node room,
    Machine.Reach roomStep (fun _ stanza => Accepted stanza.ingress) (roomInit node) room →
    EscapedTexts room → ∀ acl before after,
      ∃ room', roomConfigParse room (before ++ (buildRoomConfig room ++ after))
        (formSpan before room) acl = some room' ∧ FormKept room room' := by
  intro h
  have hany : (Machine.run roomStep (roomInit (lit "room"))
      (formByAlice [("passwordprotectedroom", "1")])).any (fun room =>
        room.hasFlag mucFlagPasswordprotectedroom && room.password.isNone &&
          decide (EscapedTexts room)) = true := by decide +kernel
  obtain ⟨room, hrun, hfacts⟩ := (Option.any_eq_true _ _).mp hany
  simp only [Bool.and_eq_true, decide_eq_true_eq, Option.isNone_iff_eq_none] at hfacts
  obtain ⟨⟨hflag, hnull⟩, htexts⟩ := hfacts
  have hreach : Machine.Reach roomStep (fun _ stanza => Accepted stanza.ingress)
      (roomInit (lit "room")) room := .run .start (fun _ _ hs => accepted_of_texts hs) hrun
  have hrepeat := repeatable_of_reach (hreach.mono fun _ _ _ => trivial)
  obtain ⟨room', hparse, hkept⟩ := h _ room hreach htexts 0 [] []
  obtain rfl : room.withTexts = room' :=
    Option.some.inj ((roomConfigParse_form hrepeat htexts).symm.trans hparse)
  exact formKept_withTexts.mp hkept ⟨hflag, hnull⟩

end Mukite
