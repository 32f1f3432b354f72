import Mukite.Room.Broadcast

/-!
# The status codes of a presence

The codes that a broadcast has to carry are a set of bits, and each of them should be an element
of its own in the rendered presence. The tests of `build_presence_mucadm` are chained with `else`,
so at most one element is written. A presence is right if and only if there is at most one code to
write (`statuses_iff`).
-/

namespace Mukite

variable {room : Room} {sender receiver : Nat × Participant} {newNick : Buffer}
  {statusCodes : Nat} {fromHost text : Bytes} {packet : BuilderPacket}

/-- The element for a code. -/
def statusElement (code : String) : Bytes := lit ("<status code='" ++ code ++ "'/>")

/-- The codes of the table whose bits are set. -/
def codesIn (statusCodes : Nat) : List String :=
  (statusNames.filter fun status => statusCodes &&& status.1 != 0).map Prod.snd

/-- The codes a receiver should see: those of the set, and for the sender itself that it is the
sender and what the flags of the room call for. -/
def CodeDue (room : Room) (self : Prop) (statusCodes : Nat) (code : String) : Prop :=
  code ∈ codesIn statusCodes ∨ (self ∧ (code = "110" ∨
    (code = "100" ∧ room.hasFlag mucFlagSemianonymous = false) ∨
    (code = "170" ∧ room.hasFlag mucFlagEnablelogging = true) ∨
    (code = "201" ∧ room.hasFlag mucFlagJustCreated = true)))

/-! ## The elements in the text -/

theorem buildStatus_eq (statusCodes : Nat) :
    buildStatus statusCodes = (((codesIn statusCodes).take 1).map statusElement).flatten := by
  unfold buildStatus codesIn
  rw [← List.map_take, ← List.head?_filter]
  cases statusNames.filter fun status => statusCodes &&& status.1 != 0 with
  | nil => rfl
  | cons status rest => exact (List.append_nil _).symm

theorem nodup_codesIn (statusCodes : Nat) : (codesIn statusCodes).Nodup := by
  have hnames : (statusNames.map Prod.snd).Nodup := by decide
  exact hnames.sublist (List.filter_sublist.map Prod.snd)

/-- Every code of the table has three digits. -/
theorem length_statusElement {code : String} (h : code ∈ codesIn statusCodes) :
    (statusElement code).length = 20 := by
  obtain ⟨status, hm, rfl⟩ := List.mem_map.mp h
  have hall : ∀ status ∈ statusNames, (statusElement status.2).length = 20 := by decide
  exact hall status (List.mem_of_mem_filter hm)

theorem length_elements : ∀ {codes : List String}, (∀ code ∈ codes, code ∈ codesIn statusCodes) →
    ((codes.map statusElement).flatten).length = 20 * codes.length
  | [], _ => rfl
  | code :: rest, h => by
    have ih := length_elements fun c hc => h c (List.mem_cons_of_mem _ hc)
    rw [List.map_cons, List.flatten_cons, List.length_append, ih,
      length_statusElement (h code List.mem_cons_self), List.length_cons]
    omega

/-- **One element for each code is what is written if and only if there is at most one code.** -/
theorem elements_iff (statusCodes : Nat) :
    (∃ codes : List String, codes.Nodup ∧ (∀ code, code ∈ codes ↔ code ∈ codesIn statusCodes) ∧
        buildStatus statusCodes = (codes.map statusElement).flatten) ↔
      (codesIn statusCodes).length ≤ 1 := by
  constructor
  · rintro ⟨codes, hnodup, hmem, htext⟩
    have hperm : codes.Perm (codesIn statusCodes) :=
      (List.perm_ext_iff_of_nodup hnodup (nodup_codesIn _)).mpr hmem
    have hfirst : ∀ code ∈ (codesIn statusCodes).take 1, code ∈ codesIn statusCodes :=
      fun code hc => List.mem_of_mem_take hc
    have hlen := congrArg List.length htext
    rw [buildStatus_eq, length_elements hfirst, length_elements fun c hc => (hmem c).mp hc,
      List.length_take, hperm.length_eq] at hlen
    omega
  · intro hone
    refine ⟨codesIn statusCodes, nodup_codesIn _, fun _ => Iff.rfl, ?_⟩
    rw [buildStatus_eq, List.take_of_length_le hone]

/-! ## Which codes are due -/

theorem mem_codesIn {code : String} : code ∈ codesIn statusCodes ↔
    ∃ status ∈ statusNames, statusCodes &&& status.1 ≠ 0 ∧ status.2 = code := by
  unfold codesIn
  simp only [List.mem_map, List.mem_filter, bne_iff_ne, and_assoc]

theorem mem_codesIn_or {x y : Nat} {code : String} :
    code ∈ codesIn (x ||| y) ↔ code ∈ codesIn x ∨ code ∈ codesIn y := by
  simp only [mem_codesIn, ← exists_or, ← and_or_left]
  refine exists_congr fun status => and_congr_right fun _ => ?_
  rw [Nat.and_or_distrib_right, ← or_and_right, and_congr_left_iff]
  intro _
  rw [Ne, Nat.or_eq_zero_iff, not_and_or]

theorem codesIn_ite {p : Prop} [Decidable p] {x : Nat} {code : String} :
    code ∈ codesIn (if p then x else 0) ↔ p ∧ code ∈ codesIn x := by
  have hzero : codesIn 0 = [] := by decide
  split
  · next h => exact (and_iff_right h).symm
  · next h => simp [hzero, h]

/-- The codes of the room are those its flags call for. -/
theorem codesIn_roomConfig {code : String} : code ∈ codesIn (roomConfigStatusCodes room) ↔
    (code = "100" ∧ room.hasFlag mucFlagSemianonymous = false) ∨
      (code = "170" ∧ room.hasFlag mucFlagEnablelogging = true) ∨
      (code = "201" ∧ room.hasFlag mucFlagJustCreated = true) := by
  have hnon : codesIn statusNonAnonymous = ["100"] := by decide
  have hlog : codesIn statusLoggingEnabled = ["170"] := by decide
  have hnew : codesIn statusRoomCreated = ["201"] := by decide
  have hflip : (if room.hasFlag mucFlagSemianonymous then 0 else statusNonAnonymous)
      = if room.hasFlag mucFlagSemianonymous = false then statusNonAnonymous else 0 := by
    cases room.hasFlag mucFlagSemianonymous <;> rfl
  unfold roomConfigStatusCodes
  rw [hflip, mem_codesIn_or, mem_codesIn_or, codesIn_ite, codesIn_ite, codesIn_ite, hnon, hlog,
    hnew]
  simp only [List.mem_singleton, or_assoc, and_comm]

/-- The codes of the packet for a receiver. -/
def packetCodes (room : Room) (self : Prop) [Decidable self] (statusCodes : Nat) : Nat :=
  if self then roomConfigStatusCodes room ||| statusSelfPresence ||| statusCodes else statusCodes

/-- **The packet carries the codes that are due.** -/
theorem codesIn_packetCodes {self : Prop} [Decidable self] {code : String} :
    code ∈ codesIn (packetCodes room self statusCodes) ↔ CodeDue room self statusCodes code := by
  have hself : codesIn statusSelfPresence = ["110"] := by decide
  unfold packetCodes CodeDue
  split
  · next h =>
    rw [mem_codesIn_or, mem_codesIn_or, codesIn_roomConfig, hself, List.mem_singleton]
    tauto
  · next h => simp [h]

/-- **When there is at most one code to write.** -/
theorem codes_le_one_iff {self : Prop} [Decidable self] :
    (codesIn (packetCodes room self statusCodes)).length ≤ 1 ↔
      if self then
        room.hasFlag mucFlagSemianonymous = true ∧ room.hasFlag mucFlagEnablelogging = false ∧
          room.hasFlag mucFlagJustCreated = false ∧ ∀ code ∈ codesIn statusCodes, code = "110"
      else (codesIn statusCodes).length ≤ 1 := by
  by_cases h : self
  · rw [if_pos h]
    have hown : "110" ∈ codesIn (packetCodes room self statusCodes) :=
      codesIn_packetCodes.mpr (.inr ⟨h, .inl rfl⟩)
    have hone : (codesIn (packetCodes room self statusCodes)).length ≤ 1 ↔
        ∀ code, CodeDue room self statusCodes code → code = "110" := by
      constructor
      · intro hlen code hdue
        have hm := codesIn_packetCodes.mpr hdue
        obtain ⟨c, hc⟩ := List.length_eq_one_iff.mp
          (le_antisymm hlen (List.length_pos_of_mem hown))
        rw [hc] at hm hown
        exact (List.mem_singleton.mp hm).trans (List.mem_singleton.mp hown).symm
      · intro hall
        have hsub : codesIn (packetCodes room self statusCodes) ⊆ ["110"] := fun code hm =>
          List.mem_singleton.mpr (hall code (codesIn_packetCodes.mp hm))
        exact (nodup_codesIn _).subperm hsub |>.length_le
    rw [hone]
    constructor
    · intro hall
      refine ⟨?_, ?_, ?_, fun code hm => hall code (.inl hm)⟩
      · by_contra hno
        have := hall "100" (.inr ⟨h, .inr (.inl ⟨rfl, Bool.eq_false_iff.mpr hno⟩)⟩)
        exact absurd this (by decide)
      · by_contra hno
        have := hall "170" (.inr ⟨h, .inr (.inr (.inl ⟨rfl, (Bool.not_eq_false _).mp hno⟩))⟩)
        exact absurd this (by decide)
      · by_contra hno
        have := hall "201" (.inr ⟨h, .inr (.inr (.inr ⟨rfl, (Bool.not_eq_false _).mp hno⟩))⟩)
        exact absurd this (by decide)
    · rintro ⟨hsemi, hlog, hnew, hset⟩ code hdue
      rcases hdue with hm | ⟨-, rfl | ⟨-, hno⟩ | ⟨-, hno⟩ | ⟨-, hno⟩⟩
      · exact hset code hm
      · rfl
      · rw [hsemi] at hno
        cases hno
      · rw [hlog] at hno
        cases hno
      · rw [hnew] at hno
        cases hno
  · rw [if_neg h]
    unfold packetCodes
    rw [if_neg h]

/-! ## The presence -/

/-- The same presence without any code. -/
def codeless (packet : BuilderPacket) : BuilderPacket :=
  { packet with
    sysData := match packet.sysData with
      | .presence item _ resume => .presence item 0 resume
      | data => data }

/-- The rendered presence is the one without codes, with an element for each of `codes` put behind
the item. -/
def ShowsCodes (fromHost : Bytes) (packet : BuilderPacket) (codes : List String) : Prop :=
  ∃ front, builderBuild fromHost (codeless packet) = some (front ++ lit "</x></presence>") ∧
    builderBuild fromHost packet
      = some (front ++ (codes.map statusElement).flatten ++ lit "</x></presence>")

/-- The codes stand between the item and the end of the addition. -/
theorem buildPresenceMucadm_split {item : MucAdminItem}
    (h : (buildPresenceMucadm item statusCodes none).isSome) :
    ∃ front, ∀ codes, buildPresenceMucadm item codes none
      = some (front ++ buildStatus codes ++ lit "</x>") := by
  unfold buildPresenceMucadm at *
  cases ha : affiliationName item.affiliation with
  | none => simp [ha] at h
  | some affiliation =>
    cases hr : roleName item.role with
    | none => simp [ha, hr] at h
    | some role =>
      have hnil : bptBytes (none : Buffer) = [] := rfl
      refine ⟨?_, fun codes => ?_⟩
      rotate_left
      · rw [hnil]
        simp only [Option.bind_eq_bind, Option.bind_some, Option.pure_def, List.append_nil,
          ← List.append_assoc]
        rfl

/-- The same of the whole presence. -/
theorem builderBuild_split {item : MucAdminItem} (hname : packet.name = .presence)
    (htype : packet.type ≠ stanzaError) (hdata : packet.sysData = .presence item statusCodes none)
    (hbuilt : builderBuild fromHost packet = some text) :
    ∃ front, ∀ codes, builderBuild fromHost { packet with sysData := .presence item codes none }
      = some (front ++ buildStatus codes ++ lit "</x></presence>") := by
  have hbuild : ∀ codes, builderBuild fromHost { packet with sysData := .presence item codes none }
      = (buildPresenceMucadm item codes none).map fun addition =>
        presenceHead fromHost packet ++ (bptBytes packet.userData ++ addition) ++
          lit "</presence>" := by
    intro codes
    have hone : ({ packet with sysData := .presence item codes none } : BuilderPacket).name
        = .presence := hname
    rw [builderBuild_presence hone]
    unfold builderBuildPresence presenceAddition
    exact congrArg _ (if_neg htype)
  have hsome : (buildPresenceMucadm item statusCodes none).isSome := by
    have hself : ({ packet with sysData := .presence item statusCodes none } : BuilderPacket)
        = packet := by rw [← hdata]
    have := hbuild statusCodes
    rw [hself, hbuilt] at this
    exact Option.isSome_map.symm.trans (congrArg Option.isSome this.symm)
  obtain ⟨front, hfront⟩ := buildPresenceMucadm_split hsome
  refine ⟨presenceHead fromHost packet ++ bptBytes packet.userData ++ front, fun codes => ?_⟩
  rw [hbuild codes, hfront codes, Option.map_some]
  have hend : lit "</x></presence>" = lit "</x>" ++ lit "</presence>" := by decide
  simp only [hend, List.append_assoc]

/-- **What is shown is what is written for the codes.** -/
theorem showsCodes_iff {item : MucAdminItem} {codes : List String} (hname : packet.name = .presence)
    (htype : packet.type ≠ stanzaError) (hdata : packet.sysData = .presence item statusCodes none)
    (hbuilt : builderBuild fromHost packet = some text) :
    ShowsCodes fromHost packet codes ↔
      buildStatus statusCodes = (codes.map statusElement).flatten := by
  obtain ⟨front, hfront⟩ := builderBuild_split hname htype hdata hbuilt
  have hcodeless : codeless packet = { packet with sysData := .presence item 0 none } := by
    unfold codeless
    rw [hdata]
  have hself : ({ packet with sysData := .presence item statusCodes none } : BuilderPacket)
      = packet := by rw [← hdata]
  have hzero : buildStatus 0 = [] := by decide
  have hfull := hfront statusCodes
  rw [hself] at hfull
  unfold ShowsCodes
  rw [hcodeless, hfront 0, hzero, List.append_nil, hfull]
  constructor
  · rintro ⟨front', hleft, hright⟩
    obtain rfl := List.append_cancel_right (Option.some.inj hleft)
    exact List.append_cancel_left (List.append_cancel_right (Option.some.inj hright))
  · intro h
    exact ⟨front, rfl, by rw [h]⟩

/--
**When all the status codes reach the client.** For every room, sender and set of codes, the
presence rendered for a receiver has exactly one element for each code that is due, and no other,
if and only if at most one is due: for the sender itself the room is semi-anonymous, not logged and
not new, and the set has no code but 110; for another receiver the set has at most one code.
-/
theorem statuses_iff (hbuilt : builderBuild fromHost
      (presencePacket room sender newNick statusCodes receiver) = some text) :
    (∃ codes : List String, codes.Nodup ∧
        (∀ code, code ∈ codes ↔ CodeDue room (receiver.1 = sender.1) statusCodes code) ∧
        ShowsCodes fromHost (presencePacket room sender newNick statusCodes receiver) codes) ↔
      if receiver.1 = sender.1 then
        room.hasFlag mucFlagSemianonymous = true ∧ room.hasFlag mucFlagEnablelogging = false ∧
          room.hasFlag mucFlagJustCreated = false ∧ ∀ code ∈ codesIn statusCodes, code = "110"
      else (codesIn statusCodes).length ≤ 1 := by
  have htype : (presencePacket room sender newNick statusCodes receiver).type ≠ stanzaError := by
    unfold presencePacket
    dsimp only
    split <;> decide
  rw [← codes_le_one_iff, ← elements_iff]
  refine exists_congr fun codes => and_congr_right fun _ => ?_
  simp only [codesIn_packetCodes]
  refine and_congr_right fun _ => ?_
  exact showsCodes_iff rfl htype rfl hbuilt

/-! ## A kicked occupant -/

/-- A room as it is made, no longer new. -/
def oldRoom : Room := (roomInit (lit "room")).setFlag mucFlagJustCreated false

/-- Eve, who has just been kicked. -/
def kickedEve : Nat × Participant :=
  (1, { joiner oldRoom { node := some (lit "eve"), host := some (lit "h"), resource := none }
        (some (lit "eve")) affilNone with role := roleNone })

/-- Bob, who stays. -/
def stayingBob : Nat × Participant :=
  (2, joiner oldRoom { node := some (lit "bob"), host := some (lit "h"), resource := none }
    (some (lit "bob")) affilNone)

/-- Her own presence does not tell her that she has been kicked. -/
theorem kicked_code_missing : ∃ text, builderBuild (lit "conf")
      (presencePacket oldRoom kickedEve none statusKicked kickedEve) = some text ∧
    CodeDue oldRoom (kickedEve.1 = kickedEve.1) statusKicked "307" ∧
    ¬ ∃ codes : List String, codes.Nodup ∧
      (∀ code, code ∈ codes ↔ CodeDue oldRoom (kickedEve.1 = kickedEve.1) statusKicked code) ∧
      ShowsCodes (lit "conf") (presencePacket oldRoom kickedEve none statusKicked kickedEve)
        codes := by
  have hkicked : "307" ∈ codesIn statusKicked := by decide
  refine ⟨_, rfl, .inl hkicked, ?_⟩
  rintro ⟨codes, hnodup, hmem, hshow⟩
  have htext := (showsCodes_iff rfl (by decide) rfl rfl).mp hshow
  have hone := (elements_iff (packetCodes oldRoom (kickedEve.1 = kickedEve.1) statusKicked)).mp
    ⟨codes, hnodup, fun code => (hmem code).trans codesIn_packetCodes.symm, htext⟩
  revert hone
  decide

/-- Bob is told. -/
theorem statuses_iff_stayingBob : ∃ codes : List String, codes.Nodup ∧
    (∀ code, code ∈ codes ↔ CodeDue oldRoom (stayingBob.1 = kickedEve.1) statusKicked code) ∧
    ShowsCodes (lit "conf") (presencePacket oldRoom kickedEve none statusKicked stayingBob)
      codes := by
  have hbuilt : builderBuild (lit "conf")
    (presencePacket oldRoom kickedEve none statusKicked stayingBob) = some _ := rfl
  exact (statuses_iff hbuilt).mpr (by decide)

end Mukite
