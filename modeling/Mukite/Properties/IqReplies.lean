import Mukite.Worker
import Mukite.Properties.Bounces
import Mukite.Properties.Header
import Mukite.Properties.Refusals
import Mukite.Properties.Truncation

/-!
# Every query has one answer

A query should be passed on to the occupant it is for, or answered with its own id. What
`route_iq` sends by itself, to an occupant or back to the sender, has neither the name of a stanza
nor a header; only its bounces and the replies of the component have both.

* **`iq_completed_iff`**: a query is passed on or answered once if and only if the room refuses
  it, or it asks the component about a namespace other than the statistics, and what goes back to
  the sender fits into the buffer of the worker.
* `query_unanswered`: a query about a room whose answer has no name.
-/

namespace Mukite

/-- The text of a packet's header where an attribute of the stanza was. -/
def carriedText (ingress : IncomingPacket) (packet : BuilderPacket) (attr : XmlAttr) : Bytes :=
  (attr.extent.within ingress.header).bytes (bptBytes packet.header)

/-- A packet carries the id of the request. -/
def CarriesId (ingress : IncomingPacket) (packet : BuilderPacket) : Prop :=
  ∀ a, ingress.idAttr = some a → carriedText ingress packet a = a.extent.bytes ingress.mem

/-- The request is passed on to the occupant that it is for. -/
structure Forwards (room : Room) (ingress : IncomingPacket) (packet : BuilderPacket) : Prop where
  name : packet.name = .iq
  type : packet.type = ingress.type
  id : CarriesId ingress packet
  payload : ingress.innerBytes = some packet.userData
  receiver : ∃ addr receiver,
    participantsFindByNick room.participants ingress.proxyTo.resource = some (addr, receiver) ∧
      (packet.toJid = receiver.jid ∨ packet.toJid = { receiver.jid with resource := none })

/-- The request is answered. -/
structure Replies (ingress : IncomingPacket) (packet : BuilderPacket) : Prop where
  name : packet.name = .iq
  type : packet.type = stanzaIqResult ∨ packet.type = stanzaError
  id : CarriesId ingress packet
  /-- `from` is `to` in the header -/
  sender : ∃ a, ingress.fromAttr = some a ∧
    carriedText ingress packet a = lit "  to" ++ (a.extent.bytes ingress.mem).drop 4
  receiver : packet.toJid = jidInit

/-- Besides presences, one packet goes out: the request, or an answer to it. -/
def Completes (room : Room) (ingress : IncomingPacket) (sent : List BuilderPacket) : Prop :=
  ∃ packet, sent.filter (fun packet => packet.name != .presence) = [packet] ∧
    (Forwards room ingress packet ∨ Replies ingress packet)

/-- What is sent for a query, and fits into the worker's buffer, completes it. -/
def Completed (surroundings : Surroundings) (storage : WorkerThreadStorage) (room : Room)
    (ingress : IncomingPacket) (sent : Option (List BuilderPacket)) : Prop :=
  ∃ packets delivered, sent = some packets ∧
    workerSends surroundings storage packets = some delivered ∧ Completes room ingress delivered

/-- The size of an `<iq/>` with the header of the stanza that it answers. -/
def iqSize (storage : WorkerThreadStorage) (ingress : IncomingPacket) (node : Buffer)
    (type : String) (content : Nat) : Nat :=
  (lit "<iq").length + ingress.headerBytes.length + (lit " from='").length +
    node.elim 0 (fun node => node.length + 1) + (bptBytes storage.hostname).length +
    (lit "' type='").length + (lit type).length + (lit "'>").length + content +
    (lit "</iq>").length

/-- A room refuses a query, and its bounce can be built: the payload is one that can be copied,
and there is room for it with the error. -/
def RoomRefuses (storage : WorkerThreadStorage) (room : Room) (ingress : IncomingPacket)
    (acl : ACLConfig) : Prop :=
  ∃ error payload, Refusal room ingress acl error ∧ ingress.innerBytes = some payload ∧
    iqSize storage ingress room.node "error"
      ((bptBytes payload).length + (buildError error).length) ≤ storage.size

/-- A query asks the component about a namespace, not for statistics, and there is room for the
answer. -/
def AsksComponent (surroundings : Surroundings) (storage : WorkerThreadStorage)
    (ingress : IncomingPacket) : Prop :=
  ingress.type = stanzaIqGet ∧
    ∃ nodes xmlnsAttr iqType answer,
      namespacedChild (packetCleanup ingress (packetCleanupTo ||| packetCleanupSwitchFromTo))
        = some (some (nodes, xmlnsAttr)) ∧
      componentIqType (switchedMem ingress) nodes.nodeName xmlnsAttr.value = iqType ∧
      iqType ≠ buildIqStats ∧
      Pushes.addition surroundings.stray surroundings.clock
        (storage.outgoing surroundings (componentPacket ingress iqType)) = some answer ∧
      iqSize storage ingress none (if iqType = 0 then "error" else "result")
        (Output.texts answer).length ≤ storage.size

variable {surroundings : Surroundings} {storage : WorkerThreadStorage} {room room' : Room}
  {ingress : IncomingPacket} {acl : ACLConfig} {sent : List BuilderPacket}
  {packet : BuilderPacket}

/-! ## What is complete -/

/-- A packet with the switched header is an answer. -/
theorem replies_of_switched (hacc : Accepted ingress) (hname : packet.name = .iq)
    (htype : packet.type = stanzaIqResult ∨ packet.type = stanzaError)
    (hheader : packet.header = some (ingress.header.bytes (switchedMem ingress)))
    (hto : packet.toJid = jidInit) : Replies ingress packet := by
  have hlaid := hacc.headerLaid.1
  have htext : ∀ k a, ingress.attr k = some a →
      carriedText ingress packet a = a.extent.bytes (switchedMem ingress) := by
    intro k a ha
    have hattrs := hlaid.attrs k a ha
    unfold carriedText
    rw [hheader, bptBytes_some]
    exact bytes_within hattrs.1 hattrs.2.2.2.2
  refine ⟨hname, htype, fun a ha => ?_, ?_, hto⟩
  · rw [htext .id a ha]
    exact hlaid.id_switched ha
  · have hsome : ingress.fromAttr.isSome = true := by
      refine hlaid.fromAttr.resolve_left fun he => ?_
      have hhost := hacc.parsed.1.sizes.1
      rw [he] at hhost
      exact absurd hhost (by decide)
    obtain ⟨a, ha⟩ := Option.isSome_iff_exists.mp hsome
    exact ⟨a, ha, (htext .sender a ha).trans (hlaid.sender_switched ha)⟩

/-- A single packet that is an answer completes the request. -/
theorem completes_of_replies (h : Replies ingress packet) : Completes room ingress [packet] := by
  refine ⟨packet, ?_, .inr h⟩
  rw [List.filter_cons_of_pos (by rw [h.name]; decide), List.filter_nil]

theorem not_completes_nil : ¬ Completes room ingress [] := by
  rintro ⟨other, hf, -⟩
  cases hf

/-! ## What goes out -/

theorem workerSends_sublist : ∀ {packets delivered : List BuilderPacket},
    workerSends surroundings storage packets = some delivered → delivered.Sublist packets
  | [], _, h => by
    cases h
    exact .slnil
  | packet :: rest, _, h => by
    obtain ⟨built, -, h⟩ := Option.bind_eq_some_iff.mp h
    obtain ⟨more, hmore, h⟩ := Option.bind_eq_some_iff.mp h
    have hsub := workerSends_sublist hmore
    cases built with
    | false =>
      cases h
      exact hsub.cons packet
    | true =>
      cases h
      exact hsub.cons_cons packet

theorem not_completed_none : ¬ Completed surroundings storage room ingress none := by
  rintro ⟨packets, delivered, hp, -⟩
  cases hp

theorem not_completed_nil : ¬ Completed surroundings storage room ingress (some []) := by
  rintro ⟨packets, delivered, hp, hd, hc⟩
  cases hp
  cases hd
  exact not_completes_nil hc

/-- A single packet completes the request if it goes out. -/
theorem completed_single : Completed surroundings storage room ingress (some [packet]) ↔
    workerSend surroundings storage packet = some true ∧ Completes room ingress [packet] := by
  constructor
  · rintro ⟨packets, delivered, hp, hd, hc⟩
    cases hp
    obtain ⟨built, hbuilt, hd⟩ := Option.bind_eq_some_iff.mp hd
    cases built with
    | false =>
      cases hd
      exact absurd hc not_completes_nil
    | true =>
      cases hd
      exact ⟨hbuilt, hc⟩
  · rintro ⟨hbuilt, hc⟩
    refine ⟨_, [packet], rfl, ?_, hc⟩
    unfold workerSends workerSends
    rw [hbuilt]
    rfl

/-- **A packet without a name completes nothing**, whether it goes out or not, and whichever
presences are sent after it. -/
theorem not_completed_unset {more : List BuilderPacket} (h : packet.name = .unset)
    (hmore : ∀ p ∈ more, p.name = .presence) :
    ¬ Completed surroundings storage room ingress (some (packet :: more)) := by
  rintro ⟨packets, delivered, hp, hd, other, hf, hdone⟩
  cases hp
  have hnone : more.filter (fun packet => packet.name != .presence) = [] := by
    refine List.filter_eq_nil_iff.mpr fun p hp => ?_
    rw [hmore p hp]
    decide
  have hsub := (workerSends_sublist hd).filter (fun packet => packet.name != .presence)
  rw [hf, List.filter_cons_of_pos (by rw [h]; decide), hnone] at hsub
  obtain rfl := List.mem_singleton.mp (hsub.subset (List.mem_singleton_self other))
  rcases hdone with hd | hd
  · exact StanzaName.noConfusion (h.symm.trans hd.name)
  · exact StanzaName.noConfusion (h.symm.trans hd.name)

/-- **An `<iq/>` goes out if and only if it fits into the buffer.** -/
theorem workerSend_iq {type : String} {added : List Pushes.Push} (hname : packet.name = .iq)
    (htype : packet.type ≠ 0) (hword : typeName .iq packet.type = lit type)
    (hheader : (bptBytes packet.header).length = ingress.headerBytes.length)
    (hnick : packet.fromNick = none) (hto : packet.toJid = jidInit)
    (hadd : Pushes.addition surroundings.stray surroundings.clock
      (storage.outgoing surroundings packet) = some added) :
    workerSend surroundings storage packet = some true ↔
      iqSize storage ingress packet.fromNode type
        ((bptBytes packet.userData).length + (Output.texts added).length) ≤ storage.size := by
  have hbuffer : storage.emptied.Empty := ⟨rfl, storage.le, storage.allocated⟩
  have hpieces : Pushes.pieces surroundings.stray surroundings.clock
      (storage.outgoing surroundings packet) = _ := congrArg (Option.map _) hadd
  obtain ⟨buffer', built, hbuild, hspec⟩ := builderBuildInto_pushed hpieces hbuffer
  have hlength : (Output.texts (Pushes.headPieces (storage.outgoing surroundings packet) ++
      Pushes.bufPushIfbpt packet.userData ++ added ++
      Pushes.delayPieces surroundings.clock (storage.outgoing surroundings packet) ++
      (if packet.name = .unset then [] else Pushes.bufPush (endTag packet.name)))).length
        = iqSize storage ingress packet.fromNode type
          ((bptBytes packet.userData).length + (Output.texts added).length) := by
    have hhead := Pushes.texts_headPieces (storage.outgoing surroundings packet)
    have hdelay := Pushes.texts_delayPieces surroundings.clock
      (storage.outgoing surroundings packet)
    simp only [Output.texts_append, hhead, hdelay, Pushes.texts_bufPushIfbpt, List.length_append]
    unfold iqSize builderHead fromText delayText WorkerThreadStorage.outgoing
    have htag : tagStart .iq = lit "<iq" := by decide
    have hend : endTag .iq = lit "</iq>" := by decide
    have hempty : jidEmpty jidInit = true := by decide
    simp only [hname, hnick, hto, hempty, htag, hend, hword, if_neg htype,
      reduceCtorEq, if_false, if_true, List.length_append, hheader, List.length_nil,
      Pushes.texts_bufPush]
    have hat : (lit "@").length = 1 := by decide
    cases packet.fromNode with
    | none =>
      simp only [Option.elim_none, List.length_nil]
      omega
    | some node =>
      simp only [Option.elim_some, List.length_append, hat]
      omega
  rw [workerSend, hbuild, Option.map_some, Option.some.injEq, hspec.fits]
  exact iff_of_eq (congrArg (· ≤ storage.size) hlength)

/-! ## Bounces -/

/-- The header keeps its size when the addresses are switched. -/
theorem length_headerBytes_switched (hlaid : HeaderLaid ingress) :
    (ingress.header.bytes (switchedMem ingress)).length = ingress.headerBytes.length := by
  show _ = (ingress.header.bytes ingress.mem).length
  rw [Span.length_bytes hlaid.header.2,
    Span.length_bytes (by rw [hlaid.length_switched]; exact hlaid.header.2)]

/-- The payload keeps its size in another memory of the same size. -/
theorem innerBytes_of_mem {mem : Bytes} (hlen : mem.length = ingress.mem.length) :
    ({ ingress with mem := mem } : IncomingPacket).innerBytes.map (fun b => (bptBytes b).length)
      = ingress.innerBytes.map (fun b => (bptBytes b).length) := by
  unfold IncomingPacket.innerBytes
  cases ingress.inner with
  | none => rfl
  | some inner =>
    dsimp only [Span.copy]
    split
    · rfl
    · simp only [Option.map_some, bptBytes_some, Span.bytes, List.length_take, List.length_drop,
        hlen]

/-- The packet of a bounce, with the bytes of its payload. -/
def bouncedPacket (ingress : IncomingPacket) (error : XMPPError) (node payload : Buffer) :
    BuilderPacket where
  name := .iq
  type := stanzaError
  fromNode := node
  header := some (ingress.header.bytes (switchedMem ingress))
  sysData := .error error
  userData := payload

/-- A query is bounced if its payload can be copied, with one of the same size. -/
theorem workerBounce_cases {error : XMPPError} {node : Buffer} (hacc : Accepted ingress)
    (hname : ingress.name = .iq) :
    (ingress.innerBytes = none ∧ workerBounce ingress error node = none) ∨
      ∃ payload inner, ingress.innerBytes = some payload ∧
        (bptBytes inner).length = (bptBytes payload).length ∧
        workerBounce ingress error node = some (bouncedPacket ingress error node inner) := by
  obtain ⟨hmuc, huser⟩ := hacc.found_none (by rw [hname]; decide)
  have hsize := innerBytes_of_mem hacc.headerLaid.1.length_switched
  unfold workerBounce
  rw [packetCleanup_switch hmuc huser]
  dsimp only
  cases hi : ({ ingress with mem := switchedMem ingress } : IncomingPacket).innerBytes with
  | none =>
    rw [hi] at hsize
    exact .inl ⟨Option.map_eq_none_iff.mp hsize.symm, rfl⟩
  | some inner =>
    rw [hi] at hsize
    obtain ⟨payload, hp, hlen⟩ := Option.map_eq_some_iff.mp hsize.symm
    refine .inr ⟨payload, inner, hp, hlen.symm, ?_⟩
    rw [bouncedPacket, ← hname]
    rfl

/-- **A bounce completes the request** if its payload can be sent back and there is room. -/
theorem bounce_completed {room₁ : Room} {error : XMPPError} (hacc : Accepted ingress)
    (hname : ingress.name = .iq) (hnode : room₁.node = room.node) :
    Completed surroundings storage room ingress ((bounce room₁ ingress error).map Prod.snd) ↔
      ∃ payload, ingress.innerBytes = some payload ∧
        iqSize storage ingress room.node "error"
          ((bptBytes payload).length + (buildError error).length) ≤ storage.size := by
  unfold bounce
  rw [hnode]
  rcases @workerBounce_cases ingress error room.node hacc hname with
    ⟨hnone, hb⟩ | ⟨payload, inner, hpayload, hlen, hb⟩
  · rw [hb, hnone]
    refine iff_of_false not_completed_none ?_
    rintro ⟨payload, hp, -⟩
    cases hp
  · have hreplies : Replies ingress (bouncedPacket ingress error room.node inner) :=
      replies_of_switched hacc rfl (.inr rfl) rfl rfl
    have hsend := @workerSend_iq surroundings storage ingress
      (bouncedPacket ingress error room.node inner) "error" (Pushes.buildError error) rfl
      (show stanzaError ≠ 0 by decide) rfl (length_headerBytes_switched hacc.headerLaid.1) rfl rfl
      rfl
    rw [Pushes.texts_buildError] at hsend
    rw [hb, Option.map_some, Option.map_some, completed_single,
      and_iff_left (completes_of_replies hreplies), hsend, hpayload]
    simp [bouncedPacket, hlen]

/-! ## Queries to a room -/

theorem announceAffected_presences : ∀ {affected : List Nat} {room : Room},
    ∀ packet ∈ (announceAffected room affected).2, packet.name = .presence
  | [], _, packet, hp => by cases hp
  | addr :: rest, room, packet, hp => by
    unfold announceAffected at hp
    split at hp
    · exact announceAffected_presences packet hp
    · rcases List.mem_append.mp hp with hp | hp
      · obtain ⟨receiver, -, rfl⟩ := List.mem_map.mp hp
        rfl
      · exact announceAffected_presences packet hp

/-- A refused query is completed by its bounce. -/
theorem refused_completed_iff {error : XMPPError} {room₁ : Room} (hacc : Accepted ingress)
    (hname : ingress.name = .iq) (hnode : room₁.node = room.node)
    (hrefusal : ∀ other, Refusal room ingress acl other ↔ other = error) :
    Completed surroundings storage room ingress ((bounce room₁ ingress error).map Prod.snd) ↔
      RoomRefuses storage room ingress acl := by
  rw [bounce_completed hacc hname hnode]
  constructor
  · rintro ⟨payload, hp, hfits⟩
    exact ⟨error, payload, (hrefusal error).mpr rfl, hp, hfits⟩
  · rintro ⟨other, payload, href, hp, hfits⟩
    obtain rfl := (hrefusal other).mp href
    exact ⟨payload, hp, hfits⟩

theorem proxyIq_completed_iff (hacc : Accepted ingress) (hname : ingress.name = .iq)
    (hres : ingress.proxyTo.resource.isSome = true) :
    Completed surroundings storage room ingress ((proxyIq room ingress).map Prod.snd) ↔
      RoomRefuses storage room ingress acl := by
  have hproxy : ∀ error, Refusal room ingress acl error ↔ ProxyRefusal room ingress error :=
    fun error => by rw [Refusal, if_pos hres]
  unfold proxyIq
  cases hs : participantsFindByJid room.participants ingress.realFrom with
  | none =>
    refine refused_completed_iff hacc hname rfl fun other => (hproxy other).trans ?_
    constructor
    · intro h
      cases h with
      | external h => rfl
      | prohibited h' _ => rw [hs] at h'; cases h'
      | nobody h' _ _ => rw [hs] at h'; cases h'
    · rintro rfl
      exact .external hs
  | some found =>
    obtain ⟨addr, sender⟩ := found
    have hsome : (participantsFindByJid room.participants ingress.realFrom).isSome = true := by
      rw [hs]
      rfl
    dsimp only
    -- each check that fails is the refusal of its name, and no other
    cases hf : room.hasFlag mucFlagIqProxy with
    | false =>
      rw [if_pos (by rfl)]
      refine refused_completed_iff hacc hname rfl fun other => (hproxy other).trans ?_
      constructor
      · intro h
        cases h with
        | external h => rw [hs] at h; cases h
        | prohibited _ _ => rfl
        | nobody _ h _ => rw [hf] at h; cases h
      · rintro rfl
        exact .prohibited hsome hf
    | true =>
      rw [if_neg (by decide)]
      cases hr : participantsFindByNick room.participants ingress.proxyTo.resource with
      | none =>
        refine refused_completed_iff hacc hname rfl fun other => (hproxy other).trans ?_
        constructor
        · intro h
          cases h with
          | external h => rw [hs] at h; cases h
          | prohibited _ h => rw [hf] at h; cases h
          | nobody _ _ _ => rfl
        · rintro rfl
          exact .nobody hsome hf hr
      | some target =>
        obtain ⟨addr', receiver⟩ := target
        refine iff_of_false ?_ ?_
        · rintro ⟨packets, delivered, hsent, hrest⟩
          dsimp only at hsent
          obtain ⟨⟨room', sent⟩, hroute, rfl⟩ := Option.map_eq_some_iff.mp hsent
          obtain ⟨inner, -, hroute⟩ := Option.bind_eq_some_iff.mp hroute
          obtain ⟨vcard, -, hroute⟩ := Option.bind_eq_some_iff.mp hroute
          cases hroute
          -- the request is sent on without a name
          exact not_completed_unset rfl (List.forall_mem_nil _) ⟨_, delivered, rfl, hrest⟩
        · rintro ⟨error, payload, href, -⟩
          cases (hproxy error).mp href with
          | external h => rw [hs] at h; cases h
          | prohibited _ h => rw [hf] at h; cases h
          | nobody _ _ h => rw [hr] at h; cases h

theorem routeIq_completed_iff (hacc : Accepted ingress) (hname : ingress.name = .iq) :
    Completed surroundings storage room ingress ((routeIq room ingress acl).map Prod.snd) ↔
      RoomRefuses storage room ingress acl := by
  unfold routeIq
  split
  · next hres => exact proxyIq_completed_iff hacc hname hres
  · next hres =>
    have hquery : ∀ error, Refusal room ingress acl error ↔
        refusedWith (answerIq room ingress acl) = some error := fun error => by
      rw [answerIq_refusal, Refusal, if_neg hres]
    cases ha : answerIq room ingress acl with
    | none =>
      rw [ha] at hquery
      refine iff_of_false not_completed_none ?_
      rintro ⟨error, payload, href, -⟩
      cases (hquery error).mp href
    | some answer =>
      have hchanged : FormThenPlain (fun _ => True) ingress.mem room answer.room :=
        answerCase_changed trivial (answerIq_case hname (by simpa using hres) ha)
      have hnode : answer.room.node = room.node := node_of_changed hchanged.changed
      rw [ha, refusedWith_some] at hquery
      cases answer with
      | refused room₁ error =>
        refine refused_completed_iff hacc hname hnode fun other => (hquery other).trans ?_
        rw [IqAnswer.error?_refused, Option.some.injEq]
        exact eq_comm
      | answered st iqType sysData =>
        by_cases hzero : iqType = 0
        · subst hzero
          refine refused_completed_iff hacc hname hnode fun other => (hquery other).trans ?_
          show some errorNotImplemented = some other ↔ _
          rw [Option.some.injEq]
          exact eq_comm
        · rw [IqAnswer.error?_answered hzero] at hquery
          refine iff_of_false ?_ ?_
          · show ¬ Completed surroundings storage room ingress
              (Option.map Prod.snd (if iqType = 0 then _ else _))
            rw [if_neg hzero]
            exact not_completed_unset rfl announceAffected_presences
          · rintro ⟨error, payload, href, -⟩
            cases (hquery error).mp href

/-! ## Queries to the component -/

/-- The reply of the component goes out if there is room for it. -/
theorem componentPacket_completed_iff {iqType : Nat} (hacc : Accepted ingress) :
    Completed surroundings storage room ingress
        (some [componentPacket { ingress with mem := switchedMem ingress } iqType]) ↔
      ∃ answer, Pushes.addition surroundings.stray surroundings.clock
          (storage.outgoing surroundings (componentPacket ingress iqType)) = some answer ∧
        iqSize storage ingress none (if iqType = 0 then "error" else "result")
          (Output.texts answer).length ≤ storage.size := by
  have hreplies : Replies ingress
      (componentPacket { ingress with mem := switchedMem ingress } iqType) := by
    refine replies_of_switched hacc rfl ?_ rfl rfl
    by_cases hzero : iqType = 0
    · exact .inr (if_pos hzero)
    · exact .inl (if_neg hzero)
  have htype : (if iqType = 0 then stanzaError else stanzaIqResult) ≠ 0 := by
    split <;> decide
  have hword : typeName .iq (if iqType = 0 then stanzaError else stanzaIqResult)
      = lit (if iqType = 0 then "error" else "result") := by
    split <;> rfl
  rw [completed_single, and_iff_left (completes_of_replies hreplies)]
  -- what the component says does not depend on the header
  have hsame : Pushes.addition surroundings.stray surroundings.clock (storage.outgoing surroundings
      (componentPacket { ingress with mem := switchedMem ingress } iqType))
      = Pushes.addition surroundings.stray surroundings.clock
        (storage.outgoing surroundings (componentPacket ingress iqType)) := rfl
  cases hadd : Pushes.addition surroundings.stray surroundings.clock
      (storage.outgoing surroundings (componentPacket ingress iqType)) with
  | none =>
    refine iff_of_false ?_ (fun ⟨_, h, _⟩ => by cases h)
    unfold workerSend builderBuildInto Pushes.pieces
    rw [hsame, hadd]
    exact nofun
  | some added =>
    have hsend := @workerSend_iq surroundings storage ingress
      (componentPacket { ingress with mem := switchedMem ingress } iqType) _ added rfl htype hword
      (length_headerBytes_switched hacc.headerLaid.1) rfl rfl (hsame.trans hadd)
    rw [hsend]
    simp [componentPacket]

theorem componentProcess_completed_iff (hacc : Accepted ingress) (hname : ingress.name = .iq) :
    Completed surroundings storage room ingress (componentProcess ingress) ↔
      AsksComponent surroundings storage ingress := by
  obtain ⟨hmuc, huser⟩ := hacc.found_none (by rw [hname]; decide)
  unfold componentProcess AsksComponent
  rw [if_neg (not_not.mpr hname), packetCleanup_switch hmuc huser]
  dsimp only
  by_cases htype : ingress.type = stanzaIqGet
  · rw [if_neg (not_not.mpr htype), and_iff_right htype]
    cases namespacedChild { ingress with mem := switchedMem ingress } with
    | none =>
      refine iff_of_false not_completed_none ?_
      rintro ⟨_, _, _, _, h, -⟩
      cases h
    | some child =>
      cases child with
      | none =>
        refine iff_of_false not_completed_nil ?_
        rintro ⟨_, _, _, _, h, -⟩
        cases h
      | some child =>
        obtain ⟨nodes, xmlnsAttr⟩ := child
        rw [Option.bind_eq_bind, Option.bind_some]
        by_cases hstats : componentIqType (switchedMem ingress) nodes.nodeName xmlnsAttr.value
            = buildIqStats
        · refine iff_of_false ?_ ?_
          · simp only [if_pos hstats]
            exact not_completed_none
          · rintro ⟨_, _, _, _, h, rfl, hne, -⟩
            cases h
            exact hne hstats
        · simp only [if_neg hstats]
          refine (componentPacket_completed_iff hacc).trans ?_
          constructor
          · rintro ⟨answer, hanswer, hfits⟩
            exact ⟨_, _, _, answer, rfl, rfl, hstats, hanswer, hfits⟩
          · rintro ⟨_, _, _, answer, h, rfl, -, hanswer, hfits⟩
            cases h
            exact ⟨answer, hanswer, hfits⟩
  · rw [if_pos htype]
    exact iff_of_false not_completed_nil fun h => htype h.1

/--
**Every query is passed on or answered once**, for every room, every accepted query and every
buffer, if and only if the room refuses it or it asks the component about a namespace other than
the statistics, and what goes back to the sender fits.
-/
theorem iq_completed_iff (surroundings : Surroundings) (storage : WorkerThreadStorage) (room : Room)
    (stanza : Stanza) (hacc : Accepted stanza.ingress) (hname : stanza.ingress.name = .iq) :
    Completed surroundings storage room stanza.ingress (workerProcess room stanza) ↔
      if stanza.ingress.proxyTo.node.isNone then AsksComponent surroundings storage stanza.ingress
      else RoomRefuses storage room stanza.ingress stanza.acl := by
  unfold workerProcess
  split
  · exact componentProcess_completed_iff hacc hname
  · have hroute : roomRoute room stanza.ingress stanza.acl stanza.decisecondsLimit stanza.ticks
        = routeIq room stanza.ingress stanza.acl := by
      unfold roomRoute isErrorStanza
      rw [hname, bne_self_eq_false, Bool.and_false, if_neg Bool.false_ne_true]
    rw [hroute]
    exact routeIq_completed_iff hacc hname

/-! ## Two queries -/

/-- A room with one occupant. -/
def aliceAlone : Option Room :=
  Machine.run roomStep (roomInit (lit "room"))
    (stanzasOfTexts openAcl 0 0 ["<presence from='alice@h/pc' to='room@conf/al'/>"])

/-- A get query of alice about a namespace, with the room and what is sent. -/
def askRoom (xmlns : String) : Option (Room × Stanza × List BuilderPacket) := do
  let room ← aliceAlone
  let stanza ← stanzaOfText openAcl 0 0
    ("<iq from='alice@h/pc' to='room@conf' type='get' id='q1'><query xmlns='" ++ xmlns ++
      "'/></iq>")
  let sent ← workerProcess room stanza
  return (room, stanza, sent)

theorem askRoom_spec {xmlns : String} {stanza : Stanza}
    (h : askRoom xmlns = some (room, stanza, sent)) :
    aliceAlone = some room ∧ Accepted stanza.ingress ∧ workerProcess room stanza = some sent := by
  unfold askRoom at h
  obtain ⟨room₁, hroom, h⟩ := Option.bind_eq_some_iff.mp h
  obtain ⟨stanza₁, hstanza, h⟩ := Option.bind_eq_some_iff.mp h
  obtain ⟨sent₁, hsent, h⟩ := Option.bind_eq_some_iff.mp h
  cases h
  exact ⟨hroom, accepted_of_text hstanza, hsent⟩

set_option maxRecDepth 100000 in
/-- The answer to a query about the room has no name and no header, in whichever buffer. -/
theorem query_unanswered : ∃ room stanza, aliceAlone = some room ∧ Accepted stanza.ingress ∧
    stanza.ingress.name = .iq ∧ stanza.ingress.type = stanzaIqGet ∧
    ∀ surroundings storage,
      ¬ Completed surroundings storage room stanza.ingress (workerProcess room stanza) := by
  have hany : (askRoom "http://jabber.org/protocol/disco#info").any (fun (_, stanza, sent) =>
      stanza.ingress.name == .iq && stanza.ingress.type == stanzaIqGet && sent.length == 1 &&
        sent.head?.any (fun packet => packet.name == .unset)) = true := by decide +kernel
  obtain ⟨⟨room, stanza, sent⟩, h, hfacts⟩ := (Option.any_eq_true _ _).mp hany
  simp only [Bool.and_eq_true, beq_iff_eq] at hfacts
  obtain ⟨⟨⟨hname, htype⟩, hone⟩, hhead⟩ := hfacts
  obtain ⟨packet, rfl⟩ := List.length_eq_one_iff.mp hone
  obtain ⟨hroom, hacc, hsent⟩ := askRoom_spec h
  refine ⟨room, stanza, hroom, hacc, hname, htype, fun surroundings storage => ?_⟩
  rw [hsent]
  exact not_completed_unset (beq_iff_eq.mp hhead) (List.forall_mem_nil _)

/-- A worker with a buffer of 1024 bytes. -/
def kilobyteStorage : WorkerThreadStorage where
  builderBuffer := freshBuffer 1024
  hostname := some (lit "conf")
  le := (freshBuffer_empty 1024).le
  allocated := (freshBuffer_empty 1024).allocated

/-- The system of `uptimePacket`. -/
def uptimeSurroundings : Surroundings where
  clock := uptimeClock
  uname := uptimePacket.uname
  stray := movingStray [0, 0, 0] rfl

set_option maxRecDepth 100000 in
/-- The result at a query that the room does not know. -/
theorem iq_completed_iff_unknown : ∃ room stanza, aliceAlone = some room ∧
    Completed uptimeSurroundings kilobyteStorage room stanza.ingress
      (workerProcess room stanza) := by
  have hany : (askRoom "jabber:iq:last").any (fun (room, stanza, _) =>
      stanza.ingress.name == .iq && stanza.ingress.proxyTo.node.isSome &&
        stanza.ingress.proxyTo.resource.isNone &&
        refusedWith (answerIq room stanza.ingress stanza.acl) == some errorNotImplemented &&
        stanza.ingress.innerBytes.any (fun payload =>
          iqSize kilobyteStorage stanza.ingress room.node "error"
            ((bptBytes payload).length + (buildError errorNotImplemented).length) ≤ 1024))
      = true := by decide +kernel
  obtain ⟨⟨room, stanza, sent⟩, h, hfacts⟩ := (Option.any_eq_true _ _).mp hany
  simp only [Bool.and_eq_true, beq_iff_eq, Option.any_eq_true, decide_eq_true_eq] at hfacts
  obtain ⟨⟨⟨⟨hname, hnode⟩, hres⟩, hrefused⟩, payload, hpayload, hfits⟩ := hfacts
  obtain ⟨hroom, hacc, -⟩ := askRoom_spec h
  refine ⟨room, stanza, hroom,
    (iq_completed_iff uptimeSurroundings kilobyteStorage room stanza hacc hname).mpr ?_⟩
  have hnone : stanza.ingress.proxyTo.resource.isSome ≠ true := by
    rw [Option.isNone_iff_eq_none] at hres
    rw [hres]
    exact Bool.false_ne_true
  rw [if_neg (by rw [Option.isNone_iff_eq_none]; exact Option.isSome_iff_ne_none.mp hnode)]
  refine ⟨errorNotImplemented, payload, ?_, hpayload, hfits⟩
  rw [Refusal, if_neg hnone]
  exact answerIq_refusal.mp hrefused

end Mukite
