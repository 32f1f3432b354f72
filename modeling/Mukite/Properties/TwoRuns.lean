import Mukite.Properties.Disguise

/-!
# One stanza in two rooms

Each kind of stanza in two rooms that differ in the real JID of one occupant: messages, presences of
occupants and of newcomers, get queries and errors. The two runs go through the same branches, and
what they send tells them apart for that occupant and for moderators only (`Paired.stanza`).
-/

namespace Mukite

section Runs

variable {q : Nat} {jid : Jid} {left : Leftover} {room₁ room₂ room₁' room₂' : Room}
  {i₁ i₂ : IncomingPacket}
  {sent₁ sent₂ : List BuilderPacket}

/-! ## Messages -/

theorem publish_defined {room : Room} {ingress : IncomingPacket} {sender : Participant}
    {r : Room × List BuilderPacket} (h : publish room ingress sender = some r) :
    ingress.innerBytes.isSome := by
  obtain ⟨inner, hinner, -⟩ := Option.bind_eq_some_iff.mp h
  rw [← innerBytes_isSome_mem ingress
    (packetCleanup ingress (packetCleanupFrom ||| packetCleanupTo)).mem]
  exact Option.isSome_iff_exists.mpr ⟨inner, hinner⟩

/-- Whatever a message leads to, its payload is sent. -/
theorem routeMessage_defined {room : Room} {ingress : IncomingPacket} {limit ticks : Int}
    {r : Room × List BuilderPacket} (h : routeMessage room ingress limit ticks = some r) :
    ingress.innerBytes.isSome := by
  unfold routeMessage at h
  split at h
  · exact bounce_defined h
  · split at h
    · unfold routePublicMessage at h
      split at h
      · exact bounce_defined h
      · split at h
        · exact bounce_defined h
        · obtain ⟨subject, -, h⟩ := Option.bind_eq_some_iff.mp h
          cases subject with
          | none => exact publish_defined h
          | some newSubject =>
            simp only at h
            split at h
            · exact bounce_defined h
            · split at h
              · exact bounce_defined h
              · obtain ⟨node, -, h⟩ := Option.bind_eq_some_iff.mp h
                exact publish_defined h
    · unfold routePrivateMessage at h
      split at h
      · exact bounce_defined h
      · split at h
        · exact bounce_defined h
        · split at h
          · exact bounce_defined h
          · obtain ⟨inner, hinner, -⟩ := Option.bind_eq_some_iff.mp h
            rw [← innerBytes_isSome_mem ingress
              (packetCleanup ingress (packetCleanupFrom ||| packetCleanupTo)).mem]
            exact Option.isSome_iff_exists.mpr ⟨inner, hinner⟩

variable {lists : Affiliations} {room : Room} {n : Nat × Participant}

/-- A message is the same for every receiver but `q`, except for blanks in the header. -/
theorem messagePacket_same (halike : Alike i₁ i₂) (hcontent : SameContent i₁ i₂) {inner : Buffer}
    {sender receiver : Nat × Participant} {room room' : Room} (hnode : room'.node = room.node)
    (hne : receiver.1 ≠ q) : SamePacket (messagePacket room (passedOn i₁) inner sender.2 receiver.2)
      (messagePacket room' (passedOn i₂) inner (altered q jid left sender).2
        (altered q jid left receiver).2) := by
  obtain ⟨front, back, m, k, hfront, hback⟩ := hcontent.header
  refine .header front back m k (congrArg some hfront) (congrArg some hback) ?_
  have htype : (passedOn i₁).type = (passedOn i₂).type := halike.type
  unfold messagePacket
  rw [htype, altered_nick, hnode, altered_jid_of_ne hne]

theorem publish_unrevealing (halike : Alike i₁ i₂) (hcontent : SameContent i₁ i₂)
    {sender : Nat × Participant} {room : Room}
    (h₁ : publish room i₁ sender.2 = some (room₁', sent₁))
    (h₂ : publish (alter q jid left lists room) i₂ (altered q jid left sender).2
      = some (room₂', sent₂)) :
    List.Forall₂ (Unrevealing q room₁ room₁' i₁ room₂ room₂' i₂) sent₁ sent₂ := by
  obtain ⟨inner₁, hinner₁, h₁⟩ := Option.bind_eq_some_iff.mp h₁
  obtain ⟨inner₂, hinner₂, h₂⟩ := Option.bind_eq_some_iff.mp h₂
  obtain ⟨history₁, -, h₁⟩ := Option.bind_eq_some_iff.mp h₁
  obtain ⟨history₂, -, h₂⟩ := Option.bind_eq_some_iff.mp h₂
  obtain rfl : inner₁ = inner₂ :=
    Option.some.inj (hinner₁.symm.trans (hcontent.passedOn.trans hinner₂))
  cases h₁
  cases h₂
  have hpair : ∀ receiver ∈ room.occupants, SentAt q room (alter q jid left lists room)
      (messagePacket { room with history := history₁ } (passedOn i₁) inner₁ sender.2 receiver.2)
      (messagePacket { alter q jid left lists room with history := history₂ } (passedOn i₂) inner₁
        (altered q jid left sender).2 (altered q jid left receiver).2) :=
    fun receiver hm => ⟨receiver.1, _, _, _, here_of_mem hm, here_alter hm, .inl rfl, .inl rfl,
      fun hne _ => messagePacket_same halike hcontent rfl hne⟩
  exact unrevealing_of_sentAt (forall₂_altered hpair) (stands_of_occupants rfl)
    (stands_of_occupants rfl)

theorem Paired.publicMessage (h : Paired q jid left room₁ (alter q jid left lists room₁) i₁ i₂)
    (hcontent : SameContent i₁ i₂) {sender : Nat × Participant} {limit ticks : Int}
    (h₁ : routePublicMessage room₁ i₁ sender.1 sender.2 limit ticks = some (room₁', sent₁))
    (h₂ : routePublicMessage (alter q jid left lists room₁) i₂ sender.1
      (altered q jid left sender).2 limit ticks = some (room₂', sent₂)) :
    List.Forall₂ (Unrevealing q room₁ room₁' i₁ (alter q jid left lists room₁) room₂' i₂) sent₁
      sent₂ := by
  unfold routePublicMessage at h₁ h₂
  rw [hasFlag_alter, altered_role] at h₂
  split at h₁
  · next hmute =>
    rw [if_pos hmute] at h₂
    exact h.bounce h₁ h₂ rfl
  · next hmute =>
    rw [if_neg hmute, altered_lastMessageTime] at h₂
    split at h₁
    · next hrate =>
      rw [if_pos hrate] at h₂
      exact h.bounce h₁ h₂ rfl
    · next hrate =>
      rw [if_neg hrate] at h₂
      let f : Participant → Participant := fun p => { p with lastMessageTime := ticks }
      have hroom : (alter q jid left lists room₁).modify sender.1 f
          = alter q jid left lists (room₁.modify sender.1 f) := (alter_modify fun _ _ _ => rfl).symm
      obtain ⟨subject₁, hsub₁, h₁⟩ := Option.bind_eq_some_iff.mp h₁
      obtain ⟨subject₂, hsub₂, h₂⟩ := Option.bind_eq_some_iff.mp h₂
      obtain ⟨hsize, hcopy⟩ := hcontent.subject subject₁ subject₂ hsub₁ hsub₂
      cases subject₁ with
      | none =>
        cases subject₂ with
        | some _ => cases hsize
        | none =>
          simp only at h₁ h₂
          change publish (room₁.modify sender.1 f) i₁ sender.2 = _ at h₁
          change publish ((alter q jid left lists room₁).modify sender.1 f) i₂ _ = _ at h₂
          rw [hroom] at h₂
          exact publish_unrevealing h.alike hcontent h₁ h₂
      | some s₁ =>
        cases subject₂ with
        | none => cases hsize
        | some s₂ =>
          have hsize : s₁.size = s₂.size := Option.some.inj hsize
          have hcopy : s₁.copy i₁.mem = s₂.copy i₂.mem := Option.some.inj hcopy
          simp only at h₁ h₂
          rw [← hsize, ← hcopy] at h₂
          rw [Room.hasFlag_modify] at h₁ h₂
          rw [hasFlag_alter] at h₂
          split at h₁
          · next hmay =>
            rw [if_pos hmay] at h₂
            exact h.bounce h₁ h₂ rfl
          · next hmay =>
            rw [if_neg hmay] at h₂
            split at h₁
            · next hlong =>
              rw [if_pos hlong] at h₂
              exact h.bounce h₁ h₂ rfl
            · next hlong =>
              rw [if_neg hlong] at h₂
              obtain ⟨node₁, hnode₁, h₁⟩ := Option.bind_eq_some_iff.mp h₁
              obtain ⟨node₂, hnode₂, h₂⟩ := Option.bind_eq_some_iff.mp h₂
              obtain rfl : node₁ = node₂ := Option.some.inj (hnode₁.symm.trans hnode₂)
              let subject : Subject :=
                { node := some node₁, nick := some (bptBytes sender.2.nick) }
              rw [altered_nick] at h₂
              change publish { (alter q jid left lists room₁).modify sender.1 f with
                subject := subject } i₂ _ = _ at h₂
              rw [hroom] at h₂
              change publish (alter q jid left lists
                { room₁.modify sender.1 f with subject := subject }) i₂ _ = _ at h₂
              exact publish_unrevealing h.alike hcontent h₁ h₂

theorem Paired.privateMessage (h : Paired q jid left room₁ (alter q jid left lists room₁) i₁ i₂)
    (hcontent : SameContent i₁ i₂) {sender : Nat × Participant}
    (h₁ : routePrivateMessage room₁ i₁ sender.2 = some (room₁', sent₁))
    (h₂ : routePrivateMessage (alter q jid left lists room₁) i₂ (altered q jid left sender).2
      = some (room₂', sent₂)) :
    List.Forall₂ (Unrevealing q room₁ room₁' i₁ (alter q jid left lists room₁) room₂' i₂) sent₁
      sent₂ := by
  unfold routePrivateMessage at h₁ h₂
  rw [findByNick_alter, ← h.alike.proxyTo] at h₂
  cases hfind : participantsFindByNick room₁.participants i₁.proxyTo.resource with
  | none =>
    rw [hfind] at h₁ h₂
    exact h.bounce h₁ h₂ rfl
  | some receiver =>
    rw [hfind] at h₁ h₂
    simp only [Option.map_some] at h₁ h₂
    rw [hasFlag_alter, hasFlag_alter, altered_role] at h₂
    split at h₁
    · next hmute =>
      rw [if_pos hmute] at h₂
      exact h.bounce h₁ h₂ rfl
    · next hmute =>
      rw [if_neg hmute] at h₂
      split at h₁
      · next hpm =>
        rw [if_pos hpm] at h₂
        exact h.bounce h₁ h₂ rfl
      · next hpm =>
        rw [if_neg hpm] at h₂
        obtain ⟨inner₁, hinner₁, h₁⟩ := Option.bind_eq_some_iff.mp h₁
        obtain ⟨inner₂, hinner₂, h₂⟩ := Option.bind_eq_some_iff.mp h₂
        obtain rfl : inner₁ = inner₂ :=
          Option.some.inj (hinner₁.symm.trans (hcontent.passedOn.trans hinner₂))
        cases h₁
        cases h₂
        have hm : receiver ∈ room₁.occupants := (findByNick_spec hfind).1
        refine unrevealing_of_sentAt (.cons ?_ .nil) (stands_of_occupants rfl)
          (stands_of_occupants rfl)
        exact ⟨receiver.1, _, _, _, here_of_mem hm, here_alter hm, .inl rfl, .inl rfl,
          fun hne _ => messagePacket_same h.alike hcontent rfl hne⟩

theorem Paired.message (h : Paired q jid left room₁ (alter q jid left lists room₁) i₁ i₂)
    {limit ticks : Int} (h₁ : routeMessage room₁ i₁ limit ticks = some (room₁', sent₁))
    (h₂ : routeMessage (alter q jid left lists room₁) i₂ limit ticks = some (room₂', sent₂)) :
    List.Forall₂ (Unrevealing q room₁ room₁' i₁ (alter q jid left lists room₁) room₂' i₂) sent₁
      sent₂ := by
  have hcontent := h.alike.content (routeMessage_defined h₁) (routeMessage_defined h₂)
  unfold routeMessage at h₁ h₂
  rw [h.sender, ← h.alike.proxyTo] at h₂
  cases hfind : participantsFindByJid room₁.participants i₁.realFrom with
  | none =>
    rw [hfind] at h₁ h₂
    exact h.bounce h₁ h₂ rfl
  | some sender =>
    rw [hfind] at h₁ h₂
    simp only [Option.map_some] at h₁ h₂
    rw [altered_fst] at h₂
    split at h₁
    · next hres =>
      rw [if_pos hres] at h₂
      exact h.publicMessage hcontent h₁ h₂
    · next hres =>
      rw [if_neg hres] at h₂
      exact h.privateMessage hcontent h₁ h₂

end Runs

section Presences

variable {q : Nat} {jid : Jid} {left : Leftover} {lists : Affiliations}
  {room room₁ room₂ room₁' room₂' : Room} {i₁ i₂ : IncomingPacket}
  {sent₁ sent₂ : List BuilderPacket} {addr : Nat} {p : Participant}

/-! ## Presences -/

/-- A change of a participant that leaves its real JID and its role alone. -/
def StaysPut (f : Participant → Participant) : Prop := ∀ p, (f p).jid = p.jid ∧ (f p).role = p.role

theorem staysPut_refreshed (room : Room) (inner : Buffer) : StaysPut (refreshed room inner) := by
  intro p
  unfold refreshed
  split <;> exact ⟨rfl, rfl⟩

theorem staysPut_cached : StaysPut cached := fun _ => ⟨rfl, rfl⟩

theorem Here.modify {f : Participant → Participant} {b : Nat} {role : Int} (hf : StaysPut f)
    (h : Here room b jid role) : Here (room.modify addr f) b jid role := by
  obtain ⟨p, hp, hjid, hrole⟩ := h
  refine ⟨if b = addr then f p else p, Room.mem_occupants_modify.mpr ⟨p, hp, rfl⟩, ?_⟩
  split
  · exact ⟨(hf p).1.trans hjid, (hf p).2.trans hrole⟩
  · exact ⟨hjid, hrole⟩

theorem indifferent_refreshed (room : Room) (inner : Buffer) :
    Indifferent (refreshed room inner) := by
  intro p jid affected
  unfold refreshed
  dsimp only
  split <;> rfl

theorem indifferent_departed (room : Room) (inner : Buffer) :
    Indifferent (departed room inner) := fun p jid affected =>
  congrArg (fun p : Participant => { p with role := roleNone })
    (indifferent_refreshed room inner p jid affected)

/-- Whoever hears of an occupant that has changed would have heard of it before. -/
theorem told_modify {f : Participant → Participant} {leaving : Prop} (hf : Indifferent f)
    (hrole : leaving ∨ ∀ p, (f p).role = p.role)
    (h : Bystander q room addr leaving → p.affectedList.reread (left addr) = p.affectedList) :
    Told q left (room.modify addr f) (addr, f p) := by
  rintro ⟨b, receiver⟩ hm hne hplain
  obtain ⟨p₀, hp₀, rfl⟩ := Room.mem_occupants_modify.mp hm
  show (f p).affectedList.reread (left addr) = (f p).affectedList
  rw [hf.keeps.2]
  refine h ⟨b, p₀, hp₀, hne, ?_⟩
  by_cases hb : b = addr
  · rw [if_pos hb] at hplain
    rcases hrole with hleaving | hrole
    · exact .inr ⟨hb, hleaving⟩
    · exact .inl (hrole p₀ ▸ hplain)
  · rw [if_neg hb] at hplain
    exact .inl hplain

theorem altered_pair : (addr, (altered q jid left (addr, p)).2) = altered q jid left (addr, p) :=
  Prod.ext (altered_fst (n := (addr, p))).symm rfl

/-- The second half of a presence in both rooms. -/
theorem announceCase_unrevealing {inner : Buffer} {type : Nat} {justJoined : Bool}
    (hanon : room.hasFlag mucFlagSemianonymous = true) (hp : (addr, p) ∈ room.occupants)
    (htold : Bystander q room addr (type = stanzaPresenceUnavailable) →
      p.affectedList.reread (left addr) = p.affectedList)
    (hleft₁ : type = stanzaPresenceUnavailable → room₁.occupants = room.occupants)
    (hleft₂ : type = stanzaPresenceUnavailable →
      room₂.occupants = (alter q jid left lists room).occupants)
    (h₁ : AnnounceCase room addr p type inner justJoined room₁' sent₁)
    (h₂ : AnnounceCase (alter q jid left lists room) addr (altered q jid left (addr, p)).2 type
      inner justJoined room₂' sent₂) :
    List.Forall₂ (Unrevealing q room₁ room₁' i₁ room₂ room₂' i₂) sent₁ sent₂ := by
  -- both rooms take the same branch, for it depends on the type only
  cases h₁ with
  | left htype =>
    cases h₂ with
    | stayed hne => exact absurd htype hne
    | left _ =>
      let f := departed room inner
      have hf : Indifferent f := indifferent_departed room inner
      have hroom : (alter q jid left lists room).modify addr f
          = alter q jid left lists (room.modify addr f) := (alter_modify hf).symm
      have hstands : ∀ {before room : Room}, before.occupants = room.occupants →
          Stands before ((roomLeave (room.modify addr f) addr).setFlag mucFlagJustCreated false)
            (room.modify addr f) := by
        rintro before room hbefore b jid role ⟨p', hp', rfl, rfl⟩
        by_cases hb : b = addr
        · -- whoever leaves is announced without a role
          obtain ⟨p₀, hp₀, rfl⟩ := Room.mem_occupants_modify.mp hp'
          rw [if_pos hb]
          have hrole : (f p₀).role ≠ roleModerator := by
            show roleNone ≠ roleModerator
            decide
          exact .inr ⟨hrole, p₀.role, p₀, hbefore ▸ hp₀, ((staysPut_refreshed _ inner p₀).1).symm,
            rfl⟩
        · exact .inl ⟨p', mem_occupants_roomLeave.mpr ⟨hp', hb⟩, rfl, rfl⟩
      have hs₂ := hstands (hleft₂ htype)
      change List.Forall₂ _ _ (roomBroadcastPresence ((alter q jid left lists room).modify addr f)
        (addr, f (altered q jid left (addr, p)).2) none 0)
      rw [hroom] at hs₂ ⊢
      rw [hf.altered, altered_pair]
      refine unrevealing_of_sentAt (broadcast_sentAt ?_ (told_modify hf (.inl htype) htold) none 0)
        (hstands (hleft₁ htype)) ?_
      · rw [Room.hasFlag_modify]
        exact hanon
      · exact hroom ▸ hs₂
  | stayed htype =>
    cases h₂ with
    | left heq => exact absurd heq htype
    | stayed _ =>
      let f := refreshed room inner
      have hf : Indifferent f := indifferent_refreshed room inner
      have hroom : (alter q jid left lists room).modify addr f
          = alter q jid left lists (room.modify addr f) := (alter_modify hf).symm
      have hstands : ∀ before room : Room, Stands before
          (((room.modify addr f).modify addr cached).setFlag mucFlagJustCreated false)
          (room.modify addr f) := fun before room b jid role h =>
        .inl (h.modify staysPut_cached)
      have hsent : List.Forall₂ (SentAt q (room.modify addr f)
          (alter q jid left lists (room.modify addr f)))
          (roomBroadcastPresence (room.modify addr f) (addr, f p) none 0 ++
            if justJoined then roomSubjectSend (room.modify addr f) (f p) else [])
          (roomBroadcastPresence (alter q jid left lists (room.modify addr f))
              (altered q jid left (addr, f p)) none 0 ++
            if justJoined then
              roomSubjectSend (alter q jid left lists (room.modify addr f))
                (altered q jid left (addr, f p)).2
            else []) := by
        refine List.rel_append (broadcast_sentAt ?_ (told_modify hf
          (.inr fun p => (staysPut_refreshed room inner p).2) htold) none 0) ?_
        · rw [Room.hasFlag_modify]
          exact hanon
        · split
          · refine subject_sentAt (n := (addr, f p)) ?_
            exact Room.mem_occupants_modify.mpr ⟨p, hp, by rw [if_pos rfl]⟩
          · exact .nil
      have hs₂ := hstands room₂ (alter q jid left lists room)
      rw [hroom] at hs₂
      change List.Forall₂ _ _
        (roomBroadcastPresence ((alter q jid left lists room).modify addr f)
          (addr, f (altered q jid left (addr, p)).2) none 0 ++
          if justJoined then
            roomSubjectSend ((alter q jid left lists room).modify addr f)
              (f (altered q jid left (addr, p)).2)
          else [])
      rw [hroom, hf.altered, altered_pair]
      exact unrevealing_of_sentAt hsent (hstands room₁ room) (hroom ▸ hs₂)


/-! ### Who it is -/

/-- The second half of a presence, after what its first half leads to. -/
def presenceRest : PresenceSender → Option (Room × List BuilderPacket)
  | .done room sent => some (room, sent)
  | .go room sent addr ingress justJoined =>
    (presenceAnnounce room addr ingress justJoined).map (fun r => (r.1, sent ++ r.2))

theorem routePresence_eq {ingress : IncomingPacket} {acl : ACLConfig} :
    routePresence room ingress acl = (presenceSender room ingress acl).bind presenceRest := by
  unfold routePresence
  congr 1
  funext r
  cases r with
  | done room sent => rfl
  | go room sent addr ingress justJoined =>
    show (presenceAnnounce room addr ingress justJoined).bind _
      = (presenceAnnounce room addr ingress justJoined).map _
    cases presenceAnnounce room addr ingress justJoined <;> rfl

theorem presenceAnnounce_defined {ingress : IncomingPacket} {justJoined : Bool}
    {r : Room × List BuilderPacket} (h : presenceAnnounce room addr ingress justJoined = some r) :
    ingress.innerBytes.isSome := by
  obtain ⟨inner, hinner, -⟩ := Option.bind_eq_some_iff.mp h
  exact Option.isSome_iff_exists.mpr ⟨inner, hinner⟩

theorem innerBytes_of_passedOn {ingress : IncomingPacket}
    (h : (passedOn ingress).innerBytes.isSome) : ingress.innerBytes.isSome := by
  rw [← innerBytes_isSome_mem ingress (passedOn ingress).mem]
  exact h

/-- An error that ends the first half needs the payload. -/
theorem presenceBounce_defined {ingress : IncomingPacket} {error : XMPPError}
    {r : PresenceSender} (h : PresenceSender.bounce room ingress error = some r) :
    ingress.innerBytes.isSome := by
  obtain ⟨r, hb, -⟩ := Option.map_eq_some_iff.mp h
  exact bounce_defined hb

theorem Paired.presenceBounce (h : Paired q jid left room₁ room₂ i₁ i₂) {error : XMPPError}
    {r₁ r₂ : Room} (h₁ : (PresenceSender.bounce r₁ i₁ error).bind presenceRest
      = some (room₁', sent₁))
    (h₂ : (PresenceSender.bounce r₂ i₂ error).bind presenceRest = some (room₂', sent₂))
    (hnode : r₁.node = r₂.node) :
    List.Forall₂ (Unrevealing q room₁ room₁' i₁ room₂ room₂' i₂) sent₁ sent₂ := by
  have hbounce : ∀ {r room : Room} {ingress : IncomingPacket} {sent : List BuilderPacket},
      (PresenceSender.bounce r ingress error).bind presenceRest = some (room, sent) →
      Mukite.bounce r ingress error = some (room, sent) := by
    intro r room ingress sent hr
    obtain ⟨x, hx, hr⟩ := Option.bind_eq_some_iff.mp hr
    obtain ⟨y, hy, rfl⟩ := Option.map_eq_some_iff.mp hx
    cases hr
    exact hy
  exact h.bounce (hbounce h₁) (hbounce h₂) hnode

/-- The second half in both rooms, behind packets that have been sent before. -/
theorem Paired.announced {lists' : Affiliations} {j₁ j₂ : IncomingPacket} {justJoined : Bool}
    {first₁ first₂ : List BuilderPacket} (hanon : room.hasFlag mucFlagSemianonymous = true)
    (hp : (addr, p) ∈ room.occupants) (htype : j₁.type = j₂.type)
    (hinner : j₁.innerBytes.isSome → j₂.innerBytes.isSome → j₁.innerBytes = j₂.innerBytes)
    (htold : Bystander q room addr (j₁.type = stanzaPresenceUnavailable) →
      p.affectedList.reread (left addr) = p.affectedList)
    (hleft : j₁.type = stanzaPresenceUnavailable → room₁.occupants = room.occupants ∧
      room₂.occupants = (alter q jid left lists' room).occupants)
    (hfirst : ∀ {inner : Buffer}, List.Forall₂ (Unrevealing q room₁
        (((room.modify addr (refreshed room inner)).modify addr cached).setFlag
          mucFlagJustCreated false) i₁ room₂
        ((((alter q jid left lists' room).modify addr (refreshed room inner)).modify addr
          cached).setFlag mucFlagJustCreated false) i₂) first₁ first₂)
    (hnone : j₁.type = stanzaPresenceUnavailable → first₁ = [] ∧ first₂ = [])
    (h₁ : presenceRest (.go room first₁ addr j₁ justJoined) = some (room₁', sent₁))
    (h₂ : presenceRest (.go (alter q jid left lists' room) first₂ addr j₂ justJoined)
      = some (room₂', sent₂)) :
    List.Forall₂ (Unrevealing q room₁ room₁' i₁ room₂ room₂' i₂) sent₁ sent₂ := by
  obtain ⟨⟨room₁'', rest₁⟩, ha₁, he₁⟩ := Option.map_eq_some_iff.mp h₁
  obtain ⟨⟨room₂'', rest₂⟩, ha₂, he₂⟩ := Option.map_eq_some_iff.mp h₂
  cases he₁
  cases he₂
  have hsame := hinner (presenceAnnounce_defined ha₁) (presenceAnnounce_defined ha₂)
  have hp₂ : (addr, (altered q jid left (addr, p)).2) ∈ (alter q jid left lists' room).occupants :=
    mem_occupants_alter.mpr ⟨(addr, p), hp, altered_pair.symm⟩
  obtain ⟨inner, hi₁, hc₁⟩ := presenceAnnounce_case hp ha₁
  obtain ⟨inner₂, hi₂, hc₂⟩ := presenceAnnounce_case hp₂ ha₂
  obtain rfl : inner = inner₂ := Option.some.inj (hi₁.symm.trans (hsame.trans hi₂))
  rw [← htype] at hc₂
  refine List.rel_append ?_ (announceCase_unrevealing hanon hp htold (fun ht => (hleft ht).1)
    (fun ht => (hleft ht).2) hc₁ hc₂)
  cases hc₁ with
  | left ht =>
    obtain ⟨rfl, rfl⟩ := hnone ht
    exact .nil
  | stayed ht =>
    cases hc₂ with
    | left heq => exact absurd heq ht
    | stayed _ => exact hfirst

/-- The presence of an occupant. -/
theorem Paired.occupantPresence (h : Paired q jid left room₁ (alter q jid left lists room₁) i₁ i₂)
    (hname : i₁.name = .presence)
    (hfind : participantsFindByJid room₁.participants i₁.realFrom = some (addr, p))
    (h₁ : (occupantPresence room₁ i₁ addr p).bind presenceRest = some (room₁', sent₁))
    (h₂ : (occupantPresence (alter q jid left lists room₁) i₂ addr
      (altered q jid left (addr, p)).2).bind presenceRest = some (room₂', sent₂)) :
    List.Forall₂ (Unrevealing q room₁ room₁' i₁ (alter q jid left lists room₁) room₂' i₂) sent₁
      sent₂ := by
  have hp : (addr, p) ∈ room₁.occupants := findByJid_mem hfind
  have htold : announces room₁ i₁ addr p = true → ∀ {leaving : Prop},
      (leaving → i₁.type = stanzaPresenceUnavailable) → Bystander q room₁ addr leaving →
        p.affectedList.reread (left addr) = p.affectedList := by
    rintro hannounces leaving hleaving ⟨b, receiver, hm, hne, hplain⟩
    refine h.told addr p hfind hannounces ⟨b, receiver, hm, hne, hplain.imp_right ?_⟩
    exact fun hb => ⟨hb.1, .inr (hleaving hb.2)⟩
  -- the presence of somebody who keeps the nick, of which there are two branches
  have hpresent : announces room₁ i₁ addr p = true → ∀ {sent₁ sent₂ : List BuilderPacket},
      presenceRest (.go room₁ [] addr (passedOn i₁) false) = some (room₁', sent₁) →
      presenceRest (.go (alter q jid left lists room₁) [] addr (passedOn i₂) false)
        = some (room₂', sent₂) →
      List.Forall₂ (Unrevealing q room₁ room₁' i₁ (alter q jid left lists room₁) room₂' i₂) sent₁
        sent₂ := by
    intro hannounces sent₁ sent₂ hr₁ hr₂
    refine Paired.announced h.anonymous hp
      (show (passedOn i₁).type = (passedOn i₂).type from h.alike.type) (fun hd₁ hd₂ => ?_)
      (htold hannounces id) (fun _ => ⟨rfl, rfl⟩) .nil (fun _ => ⟨rfl, rfl⟩) hr₁ hr₂
    exact (h.alike.content (innerBytes_of_passedOn hd₁) (innerBytes_of_passedOn hd₂)).passedOn
  unfold Mukite.occupantPresence at h₁ h₂
  simp only [← h.alike.type, ← h.alike.proxyTo] at h₁ h₂
  rw [findByNick_alter] at h₂
  split at h₁
  · next hrename =>
    rw [if_pos hrename] at h₂
    cases hnick : participantsFindByNick room₁.participants i₁.proxyTo.resource with
    | some other =>
      simp only [hnick, Option.map_some, altered_fst] at h₁ h₂
      split at h₁
      · next hsame =>
        rw [if_pos hsame] at h₂
        exact hpresent (by simp [announces, hname, hnick, hsame]) h₁ h₂
      · next hsame =>
        rw [if_neg hsame] at h₂
        exact h.presenceBounce h₁ h₂ rfl
    | none =>
      simp only [hnick, Option.map_none, altered_role, hasFlag_alter] at h₁ h₂
      split at h₁
      · next hvisitor =>
        rw [if_pos hvisitor] at h₂
        cases h₁
        cases h₂
        exact .nil
      · next hvisitor =>
        rw [if_neg hvisitor] at h₂
        have hannounces : announces room₁ i₁ addr p = true := by
          simp [announces, hname, hnick, hvisitor]
        let nick : Buffer := some (bptBytes i₁.proxyTo.resource)
        let f : Participant → Participant := fun p => { p with nick := nick }
        have hroom : (alter q jid left lists room₁).modify addr f
            = alter q jid left lists (room₁.modify addr f) := (alter_modify fun _ _ _ => rfl).symm
        have hput : StaysPut f := fun _ => ⟨rfl, rfl⟩
        have hsent : List.Forall₂ (SentAt q room₁ (alter q jid left lists room₁))
            (broadcastAt room₁ addr nick statusNicknameChanged)
            (broadcastAt (alter q jid left lists room₁) addr nick statusNicknameChanged) := by
          have hget : room₁.participants.nodes.get? addr = some p :=
            NodeList.get?_eq_some_iff.mpr hp
          unfold broadcastAt
          rw [get?_alter, hget]
          simp only [Option.map_some]
          rw [altered_pair]
          refine broadcast_sentAt h.anonymous (fun receiver hm hne hplain => ?_) nick
            statusNicknameChanged
          exact htold hannounces False.elim ⟨receiver.1, receiver.2, hm, hne, .inl hplain⟩
        change presenceRest (.go (room₁.modify addr f) _ addr i₁ false) = _ at h₁
        change presenceRest (.go ((alter q jid left lists room₁).modify addr f) _ addr i₂ false)
          = _ at h₂
        rw [hroom] at h₂
        refine Paired.announced (p := f p) ?_ ?_ h.alike.type
          (fun hd₁ hd₂ => (h.alike.content hd₁ hd₂).payload) ?_
          (fun ht => absurd ht hrename.1) ?_ (fun ht => absurd ht hrename.1) h₁ h₂
        · rw [Room.hasFlag_modify]
          exact h.anonymous
        · exact Room.mem_occupants_modify.mpr ⟨p, hp, by rw [if_pos rfl]⟩
        · rintro ⟨b, receiver, hm, hne, hplain⟩
          obtain ⟨p₀, hp₀, rfl⟩ := Room.mem_occupants_modify.mp hm
          refine htold hannounces id ⟨b, p₀, hp₀, hne, hplain.imp_left ?_⟩
          split
          · exact fun hr => hr
          · exact fun hr => hr
        · -- the old nick goes to those who stay
          intro inner
          refine unrevealing_of_sentAt hsent ?_ ?_
          · intro b jid role hhere
            exact .inl (((hhere.modify hput).modify (staysPut_refreshed _ inner)).modify
              staysPut_cached)
          · intro b jid role hhere
            rw [← hroom]
            exact .inl (((hhere.modify hput).modify (staysPut_refreshed _ inner)).modify
              staysPut_cached)
  · next hstay =>
    rw [if_neg hstay] at h₂
    refine hpresent ?_ h₁ h₂
    by_cases htype : i₁.type = stanzaPresenceUnavailable
    · simp [announces, hname, htype]
    · have hnone : i₁.proxyTo.resource = none := by simpa [htype] using hstay
      simp [announces, hname, hnone]


/-! ### Newcomers -/

/-- A newcomer whose real JID opens the same doors: `q` itself, or somebody else. -/
structure Entering (q : Nat) (jid : Jid) (room₁ room₂ : Room) (i₁ i₂ : IncomingPacket)
    (acl : ACLConfig) : Prop where
  level : aclRole acl i₁.realFrom = aclRole acl i₂.realFrom
  affiliation : affiliationssGetByJid (withCreator room₁ i₁.realFrom).affiliations acl i₁.realFrom
    = affiliationssGetByJid (withCreator room₂ i₂.realFrom).affiliations acl i₂.realFrom
  who : q ≠ room₁.participants.nodes.fresh ∧ i₂ = i₁ ∨
    q = room₁.participants.nodes.fresh ∧ jid = jidSet i₂.realFrom jidFull

/-- The same answer at the door. -/
theorem Entering.admission {acl : ACLConfig} {m₁ m₂ : MucNode}
    (h : Entering q jid room₁ (alter q jid left lists room₁) i₁ i₂ acl)
    (hpassword : ∀ b, m₁.password.any (fun s => s.eqBin i₁.mem b)
      = m₂.password.any (fun s => s.eqBin i₂.mem b)) :
    admission (withCreator room₁ i₁.realFrom) i₁ m₁ acl
      = admission (withCreator (alter q jid left lists room₁) i₂.realFrom) i₂ m₂ acl := by
  unfold Mukite.admission
  rw [h.level, h.affiliation, hpassword]
  rfl

theorem Entering.joiner {acl : ACLConfig} {nick : Buffer} {affiliation : Int}
    (h : Entering q jid room₁ (alter q jid left lists room₁) i₁ i₂ acl) :
    ((alter q jid left lists room₁).participants.nodes.fresh,
        joiner (withCreator (alter q jid left lists room₁) i₂.realFrom) i₂.realFrom nick
          affiliation)
      = altered q jid left (room₁.participants.nodes.fresh,
          joiner (withCreator room₁ i₁.realFrom) i₁.realFrom nick affiliation) := by
  rw [fresh_alter]
  rcases h.who with ⟨hne, rfl⟩ | ⟨rfl, rfl⟩
  · unfold altered
    rw [if_neg (Ne.symm hne)]
    rfl
  · unfold altered
    rw [if_pos rfl]
    rfl

/-- The room that a newcomer has entered. -/
theorem Entering.joined {acl : ACLConfig} {nick : Buffer} {affiliation : Int}
    (h : Entering q jid room₁ (alter q jid left lists room₁) i₁ i₂ acl) :
    (roomJoin (withCreator (alter q jid left lists room₁) i₂.realFrom) i₂.realFrom nick
        affiliation).1
      = alter q jid left
          (creatorAffiliations (alter q jid left lists room₁) i₂.realFrom)
          (roomJoin (withCreator room₁ i₁.realFrom) i₁.realFrom nick affiliation).1 := by
  have hnodes : (alter q jid left lists room₁).participants.nodes.cons
        (Mukite.joiner (withCreator (alter q jid left lists room₁) i₂.realFrom) i₂.realFrom nick
          affiliation)
      = (room₁.participants.nodes.cons
          (Mukite.joiner (withCreator room₁ i₁.realFrom) i₁.realFrom nick affiliation)).mapNodes
            (fun addr p => (altered q jid left (addr, p)).2) := by
    apply NodeList.ext
    exact congrArg (· :: room₁.occupants.map (altered q jid left)) h.joiner
  exact congrArg (fun nodes => { withCreator (alter q jid left lists room₁) i₂.realFrom with
    participants := { nodes := nodes
                      size := room₁.participants.size + 1
                      maxSize := room₁.participants.maxSize } }) hnodes

theorem newcomerPresence_defined {ingress : IncomingPacket} {m : MucNode} {acl : ACLConfig}
    {r : Room × List BuilderPacket} (htype : ingress.type ≠ stanzaPresenceUnavailable)
    (h : (newcomerPresence room ingress m acl).bind presenceRest = some r) :
    ingress.innerBytes.isSome := by
  obtain ⟨sender, hs, hr⟩ := Option.bind_eq_some_iff.mp h
  unfold newcomerPresence at hs
  rw [if_neg htype] at hs
  split at hs
  · exact presenceBounce_defined hs
  · split at hs
    · exact presenceBounce_defined hs
    · dsimp only at hs
      split at hs
      · exact presenceBounce_defined hs
      · cases hs
        obtain ⟨r', ha, -⟩ := Option.map_eq_some_iff.mp hr
        exact innerBytes_of_passedOn (presenceAnnounce_defined ha)

/-- A newcomer is sent the roster, then everybody is told. -/
theorem Paired.entered {lists' : Affiliations} (h : Paired q jid left room₁ room₂ i₁ i₂)
    (htype : i₁.type ≠ stanzaPresenceUnavailable)
    (hinner : (passedOn i₁).innerBytes = (passedOn i₂).innerBytes)
    (hanon : room.hasFlag mucFlagSemianonymous = true) (hp : (addr, p) ∈ room.occupants)
    (hnone : p.affectedList.reasonNode = none)
    (h₁ : presenceRest (.go room (roomPresencesSend room (addr, p)) addr (passedOn i₁) true)
      = some (room₁', sent₁))
    (h₂ : presenceRest (.go (alter q jid left lists' room) (roomPresencesSend
      (alter q jid left lists' room) (altered q jid left (addr, p))) addr (passedOn i₂) true)
      = some (room₂', sent₂)) :
    List.Forall₂ (Unrevealing q room₁ room₁' i₁ room₂ room₂' i₂) sent₁ sent₂ := by
  refine Paired.announced hanon hp
    (show (passedOn i₁).type = (passedOn i₂).type from h.alike.type) (fun _ _ => hinner)
    (fun _ => AffectedList.reread_none hnone) (fun ht => absurd ht htype) ?_
    (fun ht => absurd ht htype) h₁ h₂
  intro inner
  refine unrevealing_of_sentAt (roster_sentAt hp hanon) ?_ ?_
  · intro b jid role hhere
    exact .inl ((hhere.modify (staysPut_refreshed _ inner)).modify staysPut_cached)
  · intro b jid role hhere
    exact .inl ((hhere.modify (staysPut_refreshed _ inner)).modify staysPut_cached)

/-- The presence of somebody who is not in the room. -/
theorem Paired.newcomerPresence (h : Paired q jid left room₁ (alter q jid left lists room₁) i₁ i₂)
    {acl : ACLConfig} {m₁ m₂ : MucNode} (hname : i₁.name = .presence)
    (hm₁ : parseMucNode i₁.mem i₁.muc = some m₁) (hm₂ : parseMucNode i₂.mem i₂.muc = some m₂)
    (hnew : Entering q jid room₁ (alter q jid left lists room₁) i₁ i₂ acl)
    (h₁ : (newcomerPresence room₁ i₁ m₁ acl).bind presenceRest = some (room₁', sent₁))
    (h₂ : (newcomerPresence (alter q jid left lists room₁) i₂ m₂ acl).bind presenceRest
      = some (room₂', sent₂)) :
    List.Forall₂ (Unrevealing q room₁ room₁' i₁ (alter q jid left lists room₁) room₂' i₂) sent₁
      sent₂ := by
  by_cases htype : i₁.type = stanzaPresenceUnavailable
  · unfold Mukite.newcomerPresence at h₁ h₂
    rw [if_pos htype] at h₁
    rw [if_pos (h.alike.type ▸ htype)] at h₂
    cases h₁
    cases h₂
    exact .nil
  have htype₂ : i₂.type ≠ stanzaPresenceUnavailable := h.alike.type ▸ htype
  have hcontent := h.alike.content (newcomerPresence_defined htype h₁)
    (newcomerPresence_defined htype₂ h₂)
  have hadmission := hnew.admission (hcontent.password hname m₁ m₂ hm₁ hm₂)
  unfold Mukite.newcomerPresence at h₁ h₂
  rw [if_neg htype] at h₁
  rw [if_neg htype₂, ← h.alike.proxyTo, findByNick_alter] at h₂
  split at h₁
  · next hres =>
    rw [if_pos hres] at h₂
    exact h.presenceBounce h₁ h₂ rfl
  · next hres =>
    rw [if_neg hres, Option.isSome_map] at h₂
    split at h₁
    · next hnick =>
      rw [if_pos hnick] at h₂
      exact h.presenceBounce h₁ h₂ rfl
    · next hnick =>
      rw [if_neg hnick] at h₂
      dsimp only at h₁ h₂
      -- what lets somebody in looks at the bare JID and the password, which agree
      have hdoor : admission { room₁ with
          affiliations := creatorAffiliations room₁ i₁.realFrom } i₁ m₁ acl
          = admission { alter q jid left lists room₁ with
              affiliations := creatorAffiliations (alter q jid left lists room₁) i₂.realFrom } i₂ m₂
              acl := hadmission
      rw [← hdoor] at h₂
      split at h₁
      · next error herror =>
        rw [herror] at h₂
        exact h.presenceBounce h₁ h₂ rfl
      · next affiliation hok =>
        rw [hok] at h₂
        change presenceRest (.go (roomJoin (withCreator room₁ i₁.realFrom) i₁.realFrom
            i₁.proxyTo.resource affiliation).1 (roomPresencesSend
              (roomJoin (withCreator room₁ i₁.realFrom) i₁.realFrom i₁.proxyTo.resource
                affiliation).1
              (room₁.participants.nodes.fresh,
                joiner (withCreator room₁ i₁.realFrom) i₁.realFrom i₁.proxyTo.resource
                  affiliation)) room₁.participants.nodes.fresh (passedOn i₁) true) = _ at h₁
        change presenceRest (.go (roomJoin (withCreator (alter q jid left lists room₁) i₂.realFrom)
            i₂.realFrom i₁.proxyTo.resource affiliation).1 (roomPresencesSend
              (roomJoin (withCreator (alter q jid left lists room₁) i₂.realFrom) i₂.realFrom
                i₁.proxyTo.resource affiliation).1
              ((alter q jid left lists room₁).participants.nodes.fresh,
                joiner (withCreator (alter q jid left lists room₁) i₂.realFrom) i₂.realFrom
                  i₁.proxyTo.resource affiliation))
          (alter q jid left lists room₁).participants.nodes.fresh (passedOn i₂) true) = _ at h₂
        rw [hnew.joined, hnew.joiner, fresh_alter] at h₂
        have hanon : (roomJoin (withCreator room₁ i₁.realFrom) i₁.realFrom i₁.proxyTo.resource
            affiliation).1.hasFlag mucFlagSemianonymous = true := h.anonymous
        exact h.entered htype hcontent.passedOn hanon mem_occupants_roomJoin rfl h₁ h₂

/-- **Presences.** -/
theorem Paired.presence (h : Paired q jid left room₁ (alter q jid left lists room₁) i₁ i₂)
    {acl : ACLConfig} (hname : i₁.name = .presence)
    (hnew : participantsFindByJid room₁.participants i₁.realFrom = none →
      Entering q jid room₁ (alter q jid left lists room₁) i₁ i₂ acl)
    (h₁ : routePresence room₁ i₁ acl = some (room₁', sent₁))
    (h₂ : routePresence (alter q jid left lists room₁) i₂ acl = some (room₂', sent₂)) :
    List.Forall₂ (Unrevealing q room₁ room₁' i₁ (alter q jid left lists room₁) room₂' i₂) sent₁
      sent₂ := by
  rw [routePresence_eq] at h₁ h₂
  obtain ⟨r₁, hr₁, h₁⟩ := Option.bind_eq_some_iff.mp h₁
  obtain ⟨r₂, hr₂, h₂⟩ := Option.bind_eq_some_iff.mp h₂
  obtain ⟨m₁, hm₁, hr₁⟩ := Option.bind_eq_some_iff.mp hr₁
  obtain ⟨m₂, hm₂, hr₂⟩ := Option.bind_eq_some_iff.mp hr₂
  rw [h.sender] at hr₂
  cases hfind : participantsFindByJid room₁.participants i₁.realFrom with
  | none =>
    rw [hfind] at hr₁ hr₂
    exact h.newcomerPresence hname hm₁ hm₂ (hnew hfind) (Option.bind_eq_some_iff.mpr ⟨r₁, hr₁, h₁⟩)
      (Option.bind_eq_some_iff.mpr ⟨r₂, hr₂, h₂⟩)
  | some found =>
    obtain ⟨addr, p⟩ := found
    rw [hfind] at hr₁ hr₂
    rw [Option.map_some, ← altered_pair] at hr₂
    exact h.occupantPresence hname hfind (Option.bind_eq_some_iff.mpr ⟨r₁, hr₁, h₁⟩)
      (Option.bind_eq_some_iff.mpr ⟨r₂, hr₂, h₂⟩)

end Presences

section Queries

variable {q : Nat} {jid : Jid} {left : Leftover} {lists : Affiliations}
  {room room₁ room₂ room₁' room₂' : Room} {i₁ i₂ ingress : IncomingPacket}
  {sent₁ sent₂ : List BuilderPacket} {addr : Nat} {p : Participant} {acl : ACLConfig}

/-! ## Queries -/

theorem buildRoomItems_alter {hostname : Bytes} :
    buildRoomItems (alter q jid left lists room) hostname = buildRoomItems room hostname := by
  unfold buildRoomItems
  rw [occupants_alter, List.map_map]
  congr 2

/-- What a room says about itself names no real JID. -/
theorem roomAnswer_same (iqType : Nat) :
    SamePacket { type := stanzaIqResult, iqType := iqType, sysData := .room room }
      { type := stanzaIqResult
        iqType := iqType
        sysData := .room (alter q jid left lists room) } := by
  refine .text rfl fun fromHost name => ?_
  have hreply : roomReply fromHost
        { name := name, type := stanzaIqResult, iqType := iqType, sysData := .room room }
      = roomReply fromHost
        { name := name
          type := stanzaIqResult
          iqType := iqType
          sysData := .room (alter q jid left lists room) } := by
    unfold roomReply
    simp only [buildRoomItems_alter]
    rfl
  unfold builderBuild builderAddition
  dsimp only
  rw [hreply]
  rfl

/-- A query to an occupant. -/
theorem Paired.proxyIq (h : Paired q jid left room₁ (alter q jid left lists room₁) i₁ i₂)
    (h₁ : proxyIq room₁ i₁ = some (room₁', sent₁))
    (h₂ : proxyIq (alter q jid left lists room₁) i₂ = some (room₂', sent₂)) :
    List.Forall₂ (Unrevealing q room₁ room₁' i₁ (alter q jid left lists room₁) room₂' i₂) sent₁
      sent₂ := by
  unfold Mukite.proxyIq at h₁ h₂
  rw [h.sender, ← h.alike.proxyTo, hasFlag_alter, findByNick_alter] at h₂
  cases hfind : participantsFindByJid room₁.participants i₁.realFrom with
  | none =>
    rw [hfind] at h₁ h₂
    exact h.bounce h₁ h₂ rfl
  | some sender =>
    simp only [hfind, Option.map_some, altered_nick] at h₁ h₂
    split at h₁
    · next hproxy =>
      rw [if_pos hproxy] at h₂
      exact h.bounce h₁ h₂ rfl
    · next hproxy =>
      rw [if_neg hproxy] at h₂
      cases hnick : participantsFindByNick room₁.participants i₁.proxyTo.resource with
      | none =>
        rw [hnick] at h₁ h₂
        exact h.bounce h₁ h₂ rfl
      | some receiver =>
        simp only [hnick, Option.map_some] at h₁ h₂
        obtain ⟨inner₁, hinner₁, h₁⟩ := Option.bind_eq_some_iff.mp h₁
        obtain ⟨inner₂, hinner₂, h₂⟩ := Option.bind_eq_some_iff.mp h₂
        obtain ⟨vcard₁, hv₁, h₁⟩ := Option.bind_eq_some_iff.mp h₁
        obtain ⟨vcard₂, hv₂, h₂⟩ := Option.bind_eq_some_iff.mp h₂
        have hcontent := h.alike.content
          (innerBytes_of_passedOn (Option.isSome_iff_exists.mpr ⟨inner₁, hinner₁⟩))
          (innerBytes_of_passedOn (Option.isSome_iff_exists.mpr ⟨inner₂, hinner₂⟩))
        obtain rfl : inner₁ = inner₂ :=
          Option.some.inj (hinner₁.symm.trans (hcontent.passedOn.trans hinner₂))
        obtain rfl : vcard₁ = vcard₂ := hcontent.vcard vcard₁ vcard₂ hv₁ hv₂
        cases h₁
        cases h₂
        have hm : receiver ∈ room₁.occupants := (findByNick_spec hnick).1
        have hto : ∀ jid : Jid, (if vcard₁ = true then { jid with resource := none } else jid)
            = jid ∨ (if vcard₁ = true then { jid with resource := none } else jid)
            = { jid with resource := none } := by
          intro jid
          split
          · exact .inr rfl
          · exact .inl rfl
        refine unrevealing_of_sentAt (.cons ⟨receiver.1, _, _, _, here_of_mem hm, here_alter hm,
          hto _, hto _, fun hne _ => .of_eq ?_⟩ .nil) (stands_of_occupants rfl)
          (stands_of_occupants rfl)
        rw [altered_jid_of_ne hne]

/-- A get query is refused, or answered without an effect on the room. -/
inductive PlainAnswer (room : Room) : IqAnswer → Prop
  | refused (error : XMPPError) : PlainAnswer room (.refused room error)
  | reply (iqType : Nat) (sysData : SysData) : PlainAnswer room (.reply room iqType sysData)

/-- Two answers that show the same to somebody who is no moderator. -/
inductive SameAnswer (room₁ room₂ : Room) : IqAnswer → IqAnswer → Prop
  | refused (error : XMPPError) :
      SameAnswer room₁ room₂ (.refused room₁ error) (.refused room₂ error)
  | room (iqType : Nat) : SameAnswer room₁ room₂ (.reply room₁ iqType (.room room₁))
      (.reply room₂ iqType (.room room₂))
  | unknown : SameAnswer room₁ room₂ (.unknown room₁) (.unknown room₂)

theorem getIq_plain {mem : Bytes} {query : QueryNode} {sender : Option (Nat × Participant)}
    {answer : IqAnswer} (h : getIq room mem query sender = some answer) :
    PlainAnswer room answer := by
  unfold getIq getAffiliations getConfig at h
  split at h
  · cases h
    exact .reply _ _
  · split at h
    · split at h
      · cases h
        exact .reply _ _
      · cases h
        exact .refused _
    · split at h
      · split at h
        · cases h
          exact .refused _
        · split at h
          · cases h
            exact .refused _
          · split at h
            · cases h
              exact .refused _
            · obtain ⟨next, -, h⟩ := Option.bind_eq_some_iff.mp h
              split at h
              · split at h
                · cases h
                  exact .refused _
                · cases h
                  exact .reply _ _
              · cases h
                exact .refused _
      · split at h
        · cases h
          split
          · exact .refused _
          · split
            · exact .refused _
            · exact .reply _ _
        · cases h
          exact .reply _ _

/-- The lists and the configuration are for admins and owners only, and these moderate. -/
theorem getIq_same {mem : Bytes} {query : QueryNode} {answer₁ answer₂ : IqAnswer}
    (hranked : Ranked p) (hrole : p.role ≠ roleModerator)
    (h₁ : getIq room mem query (some (addr, p)) = some answer₁)
    (h₂ : getIq (alter q jid left lists room) mem query (some (altered q jid left (addr, p)))
      = some answer₂) :
    SameAnswer room (alter q jid left lists room) answer₁ answer₂ := by
  have hlow : p.affiliation < affilAdmin := by
    by_contra hhigh
    exact hrole (hranked (not_lt.mp hhigh))
  have hconfig : ∀ room : Room, ∀ n : Nat × Participant, n.2.affiliation = p.affiliation →
      getConfig room (some n) = .refused room errorPrivilegeLevel := by
    intro room n hn
    unfold getConfig
    exact if_pos (hn ▸ hlow.trans (by decide))
  have hlists : ∀ room : Room, ∀ n : Nat × Participant, n.2.affiliation = p.affiliation →
      getAffiliations room mem query (some n)
        = some (.refused room (if query.empty then errorIqBad else errorPrivilegeLevel)) := by
    intro room n hn
    unfold getAffiliations
    split
    · rfl
    · exact if_pos (hn ▸ hlow)
  unfold getIq at h₁ h₂
  rw [hasFlag_alter, hconfig _ _ altered_affiliation, hlists _ _ altered_affiliation] at h₂
  rw [hconfig _ _ rfl, hlists _ _ rfl] at h₁
  split at h₁
  · next hinfo =>
    rw [if_pos hinfo] at h₂
    cases h₁
    cases h₂
    exact .room _
  · next hinfo =>
    rw [if_neg hinfo] at h₂
    split at h₁
    · next hitems =>
      rw [if_pos hitems] at h₂
      split at h₁
      · next hpublic =>
        rw [if_pos hpublic] at h₂
        cases h₁
        cases h₂
        exact .room _
      · next hpublic =>
        rw [if_neg hpublic] at h₂
        cases h₁
        cases h₂
        exact .refused _
    · next hitems =>
      rw [if_neg hitems] at h₂
      split at h₁
      · next hadmin =>
        rw [if_pos hadmin] at h₂
        cases h₁
        cases h₂
        exact .refused _
      · next hadmin =>
        rw [if_neg hadmin] at h₂
        split at h₁
        · next howner =>
          rw [if_pos howner] at h₂
          cases h₁
          cases h₂
          exact .refused _
        · next howner =>
          rw [if_neg howner] at h₂
          cases h₁
          cases h₂
          exact .unknown

/-- `route_iq` of a query to the room, after its answer. -/
def answerRest (ingress : IncomingPacket) : IqAnswer → Option (Room × List BuilderPacket)
  | .refused room error => bounce room ingress error
  | .answered st iqType sysData =>
    if iqType = 0 then bounce st.room ingress errorNotImplemented
    else some ((announceAffected st.room st.affected).1,
      { type := stanzaIqResult, iqType := iqType, sysData := sysData } ::
        (announceAffected st.room st.affected).2)

theorem routeIq_eq (hres : ¬ ingress.proxyTo.resource.isSome) :
    routeIq room ingress acl = (answerIq room ingress acl).bind (answerRest ingress) := by
  unfold routeIq
  rw [if_neg hres]
  rfl

theorem answerRest_reply {iqType : Nat} {sysData : SysData} :
    answerRest ingress (.reply room iqType sysData)
      = if iqType = 0 then bounce room ingress errorNotImplemented
        else some (room, [{ type := stanzaIqResult, iqType := iqType, sysData := sysData }]) := rfl

theorem bounce_single {error : XMPPError} (h : bounce room ingress error = some (room₁', sent₁)) :
    ∃ packet, sent₁ = [packet] ∧ packet.toJid = jidInit := by
  obtain ⟨packet, hpacket, he⟩ := Option.map_eq_some_iff.mp h
  cases he
  exact ⟨packet, rfl, workerBounce_toJid hpacket⟩

/-- A query that changes nothing has one answer, and the room stays as it is. -/
theorem PlainAnswer.single {answer : IqAnswer} (h : PlainAnswer room answer)
    (hrest : answerRest ingress answer = some (room₁', sent₁)) :
    room₁' = room ∧ ∃ packet, sent₁ = [packet] ∧ packet.toJid = jidInit := by
  cases h with
  | refused error => exact ⟨bounce_room hrest, bounce_single hrest⟩
  | reply iqType sysData =>
    rw [answerRest_reply] at hrest
    split at hrest
    · exact ⟨bounce_room hrest, bounce_single hrest⟩
    · cases hrest
      exact ⟨rfl, _, rfl, rfl⟩

theorem answerIq_plain {answer : IqAnswer} (htype : ingress.type = stanzaIqGet)
    (h : answerIq room ingress acl = some answer) : PlainAnswer room answer := by
  obtain ⟨query, -, h⟩ := Option.bind_eq_some_iff.mp h
  cases query with
  | none =>
    cases h
    exact .refused _
  | some query =>
    simp only [htype, if_true] at h
    exact getIq_plain h

theorem answerIq_same {answer₁ answer₂ : IqAnswer} (htype : ingress.type = stanzaIqGet)
    (hfind₁ : participantsFindByJid room.participants ingress.realFrom = some (addr, p))
    (hfind₂ : participantsFindByJid (alter q jid left lists room).participants ingress.realFrom
      = some (altered q jid left (addr, p))) (hranked : Ranked p) (hrole : p.role ≠ roleModerator)
    (h₁ : answerIq room ingress acl = some answer₁)
    (h₂ : answerIq (alter q jid left lists room) ingress acl = some answer₂) :
    SameAnswer room (alter q jid left lists room) answer₁ answer₂ := by
  obtain ⟨query, hquery, h₁⟩ := Option.bind_eq_some_iff.mp h₁
  obtain ⟨query', hquery', h₂⟩ := Option.bind_eq_some_iff.mp h₂
  obtain rfl : query = query' := Option.some.inj (hquery.symm.trans hquery')
  cases query with
  | none =>
    cases h₁
    cases h₂
    exact .refused _
  | some query =>
    simp only [htype, if_true, hfind₁, hfind₂] at h₁ h₂
    exact getIq_same hranked hrole h₁ h₂

theorem bounce_same {error : XMPPError} {a b : BuilderPacket} {room room' r r' : Room}
    (h₁ : bounce room ingress error = some (r, [a]))
    (h₂ : bounce room' ingress error = some (r', [b])) (hnode : room'.node = room.node) :
    SamePacket a b := by
  obtain ⟨x, hx, he₁⟩ := Option.map_eq_some_iff.mp h₁
  obtain ⟨y, hy, he₂⟩ := Option.map_eq_some_iff.mp h₂
  cases he₁
  cases he₂
  rw [hnode] at hy
  exact .of_eq (Option.some.inj (hx.symm.trans hy))

theorem SameAnswer.packet {answer₁ answer₂ : IqAnswer} {a b : BuilderPacket}
    (h : SameAnswer room (alter q jid left lists room) answer₁ answer₂)
    (h₁ : answerRest ingress answer₁ = some (room₁', [a]))
    (h₂ : answerRest ingress answer₂ = some (room₂', [b])) : SamePacket a b := by
  cases h with
  | refused error => exact bounce_same h₁ h₂ rfl
  | room iqType =>
    rw [answerRest_reply] at h₁ h₂
    split at h₁
    · next hzero =>
      rw [if_pos hzero] at h₂
      exact bounce_same h₁ h₂ rfl
    · next hzero =>
      rw [if_neg hzero] at h₂
      cases h₁
      cases h₂
      exact roomAnswer_same iqType
  | unknown => exact bounce_same h₁ h₂ rfl

/-- **Queries.** -/
theorem Paired.getQuery (h : Paired q jid left room₁ (alter q jid left lists room₁) i₁ i₂)
    (hadmins : AdminsModerate room₁) (htype : i₁.type = stanzaIqGet)
    (h₁ : routeIq room₁ i₁ acl = some (room₁', sent₁))
    (h₂ : routeIq (alter q jid left lists room₁) i₂ acl = some (room₂', sent₂)) :
    List.Forall₂ (Unrevealing q room₁ room₁' i₁ (alter q jid left lists room₁) room₂' i₂) sent₁
      sent₂ := by
  by_cases hres : i₁.proxyTo.resource.isSome
  · unfold routeIq at h₁ h₂
    rw [if_pos hres] at h₁
    rw [if_pos (h.alike.proxyTo ▸ hres)] at h₂
    exact h.proxyIq h₁ h₂
  · rw [routeIq_eq hres] at h₁
    rw [routeIq_eq (h.alike.proxyTo ▸ hres)] at h₂
    obtain ⟨answer₁, ha₁, hr₁⟩ := Option.bind_eq_some_iff.mp h₁
    obtain ⟨answer₂, ha₂, hr₂⟩ := Option.bind_eq_some_iff.mp h₂
    obtain ⟨hroom, a, rfl, hto₁⟩ := (answerIq_plain htype ha₁).single hr₁
    obtain ⟨-, b, rfl, hto₂⟩ := (answerIq_plain (h.alike.type ▸ htype) ha₂).single hr₂
    refine h.answer hto₁ hto₂ fun addr p hfind hne hsame hmod => ?_
    subst hsame
    have hfind₂ := h.sender
    rw [hfind, Option.map_some] at hfind₂
    have hp : (addr, p) ∈ room₁.occupants := findByJid_mem hfind
    have hrole : p.role ≠ roleModerator := fun hr => hmod p.jid ⟨p, hroom ▸ hp, rfl, hr⟩
    exact (answerIq_same htype hfind hfind₂ (hadmins addr p hp) hrole ha₁ ha₂).packet hr₁ hr₂

/-! ## Errors -/

/-- The sender of an error is announced for the last time, and leaves. -/
theorem Paired.error (h : Paired q jid left room₁ (alter q jid left lists room₁) i₁ i₂)
    (herr : isErrorStanza i₁ = true)
    (h₁ : routeError room₁ i₁ = (room₁', sent₁))
    (h₂ : routeError (alter q jid left lists room₁) i₂ = (room₂', sent₂)) :
    List.Forall₂ (Unrevealing q room₁ room₁' i₁ (alter q jid left lists room₁) room₂' i₂) sent₁
      sent₂ := by
  unfold routeError at h₁ h₂
  rw [h.sender] at h₂
  cases hfind : participantsFindByJid room₁.participants i₁.realFrom with
  | none =>
    rw [hfind] at h₁ h₂
    cases h₁
    cases h₂
    exact .nil
  | some found =>
    obtain ⟨addr, p⟩ := found
    rw [hfind] at h₁ h₂
    rw [Option.map_some, ← altered_pair] at h₂
    have hkicked : Indifferent errorKicked := fun _ _ _ => rfl
    have hroom : (alter q jid left lists room₁).modify addr errorKicked
        = alter q jid left lists (room₁.modify addr errorKicked) := (alter_modify hkicked).symm
    have hstands : ∀ room : Room, Stands room (roomLeave (room.modify addr errorKicked) addr)
        (room.modify addr errorKicked) := by
      rintro room b jid role ⟨p', hp', rfl, rfl⟩
      by_cases hb : b = addr
      · obtain ⟨p₀, hp₀, rfl⟩ := Room.mem_occupants_modify.mp hp'
        rw [if_pos hb]
        have hrole : (errorKicked p₀).role ≠ roleModerator := by
          show roleNone ≠ roleModerator
          decide
        exact .inr ⟨hrole, p₀.role, p₀, hp₀, rfl, rfl⟩
      · exact .inl ⟨p', mem_occupants_roomLeave.mpr ⟨hp', hb⟩, rfl, rfl⟩
    have hs₂ := hstands (alter q jid left lists room₁)
    cases h₁
    cases h₂
    rw [hroom] at hs₂ ⊢
    have happly : errorKicked (altered q jid left (addr, p)).2
        = (altered q jid left (addr, errorKicked p)).2 := hkicked.altered
    rw [happly, altered_pair]
    have hanon : (room₁.modify addr errorKicked).hasFlag mucFlagSemianonymous = true := h.anonymous
    have htold := h.told addr p hfind (by simp [announces, herr])
    exact unrevealing_of_sentAt (broadcast_sentAt hanon
      (told_modify hkicked (.inl (.inl herr)) htold) none 0) (hstands room₁) hs₂

/-! ## Stanzas -/

/-- **One stanza.** -/
theorem Paired.stanza {stanza₁ stanza₂ : Stanza}
    (h : Paired q jid left room₁ (alter q jid left lists room₁) stanza₁.ingress stanza₂.ingress)
    (hadmins : AdminsModerate room₁)
    (hget : stanza₁.ingress.name = .iq → stanza₁.ingress.type = stanzaIqGet)
    (hacl : stanza₂.acl = stanza₁.acl)
    (hlimit : stanza₂.decisecondsLimit = stanza₁.decisecondsLimit)
    (hticks : stanza₂.ticks = stanza₁.ticks)
    (hnew : participantsFindByJid room₁.participants stanza₁.ingress.realFrom = none →
      Entering q jid room₁ (alter q jid left lists room₁) stanza₁.ingress stanza₂.ingress
        stanza₁.acl)
    (h₁ : roomStep room₁ stanza₁ = some (room₁', sent₁))
    (h₂ : roomStep (alter q jid left lists room₁) stanza₂ = some (room₂', sent₂)) :
    List.Forall₂ (Unrevealing q room₁ room₁' stanza₁.ingress (alter q jid left lists room₁) room₂'
      stanza₂.ingress) sent₁ sent₂ := by
  unfold roomStep roomRoute at h₁ h₂
  have herror : isErrorStanza stanza₂.ingress = isErrorStanza stanza₁.ingress := by
    unfold isErrorStanza
    rw [h.alike.type, h.alike.name]
  rw [herror, ← h.alike.name, hacl, hlimit, hticks] at h₂
  split at h₁
  · next herr =>
    rw [if_pos herr] at h₂
    exact h.error herr (Option.some.inj h₁) (Option.some.inj h₂)
  · next herr =>
    rw [if_neg herr] at h₂
    cases hname : stanza₁.ingress.name with
    | message =>
      rw [hname] at h₁ h₂
      exact h.message h₁ h₂
    | presence =>
      rw [hname] at h₁ h₂
      exact h.presence hname hnew h₁ h₂
    | iq =>
      rw [hname] at h₁ h₂
      exact h.getQuery hadmins (hget hname) h₁ h₂
    | unset =>
      rw [hname] at h₁ h₂
      cases h₁
      cases h₂
      exact .nil

end Queries

end Mukite
