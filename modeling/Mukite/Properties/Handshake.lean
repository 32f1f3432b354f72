import Mukite.Properties.Sha1
import Mukite.Xmcomp.Network

/-!
# The handshake

A component introduces itself to the server: it opens a stream, the server names the stream, and the
component shows that it knows the secret by a digest of the name and the secret. Whatever the socket
does with the pieces of it, the conversation is one of a few (`Conversation`).

* **`stream_conversation`**: nothing else is ever sent, and the component takes itself for accepted
  exactly when the server has said so in answer to the digest.
* **`stream_established`**: with a server that follows, it gets that far, however the sending is
  split.
-/

namespace Mukite

/-! ## What should be said -/

/-- Octets in hexadecimal digits. -/
def hexText (octets : Bytes) : Bytes :=
  octets.flatMap (fun octet => [hexDigit (octet.toNat / 16), hexDigit (octet.toNat % 16)])

/-- The octets of a digest. -/
def digestOctets (digest : SHA1Words) : Bytes :=
  wordOctets digest.a ++ wordOctets digest.b ++ wordOctets digest.c ++ wordOctets digest.d ++
    wordOctets digest.e

/-- The handshake for a stream and a secret. What does not fit the buffer is cut off. -/
def handshake (id pass : Bytes) : Bytes :=
  lit "<handshake>" ++ hexText (digestOctets (sha1 ((id ++ pass).take (standardBufferSize - 1)))) ++
    lit "</handshake>"

/-- The greeting of the server says `id=` for the first time before the name of the stream, which
is between two quotes or whatever stands there. -/
def NamesStream (greeting id : Bytes) : Prop :=
  ∃ before quote after,
    cString greeting = before ++ lit "id=" ++ quote :: id ++ quote :: after ∧ quote ∉ id ∧
      ¬ lit "id=" <:+: before ++ lit "id"

/-- What the server can have said and what has been sent when `net_stream` returns, and whether the
component takes itself for accepted. -/
inductive Conversation (source target pass : Bytes) : List Bytes → Bytes → Bool → Prop
  | opening (sent : Bytes) (h : sent <+: streamOpening source target) :
      Conversation source target pass [] sent false
  | greeted (greeting : Bytes) (h : ∀ id, ¬ NamesStream greeting id) :
      Conversation source target pass [greeting] (streamOpening source target) false
  | shaking (greeting id sent : Bytes) (hid : NamesStream greeting id)
      (h : sent <+: handshake id pass) :
      Conversation source target pass [greeting] (streamOpening source target ++ sent) false
  | answered (greeting id reply : Bytes) (hid : NamesStream greeting id) :
      Conversation source target pass [greeting, reply]
        (streamOpening source target ++ handshake id pass)
        (decide (cString reply = lit "<handshake/>"))

/-! ## Sending -/

theorem sendLoop_sent : ∀ {sends : List (Option Nat)} {data : Bytes} {ok : Bool}
    {rest : List (Option Nat)} {taken : Bytes}, sendLoop sends data = some (ok, rest, taken) →
      taken <+: data ∧ (ok = true → taken = data)
  | sends, [], ok, rest, taken, h => by
    rw [sendLoop] at h
    cases h
    exact ⟨List.prefix_refl _, fun _ => rfl⟩
  | [], _ :: _, ok, rest, taken, h => by
    rw [sendLoop] at h
    cases h
  | none :: sends, octet :: octets, ok, rest, taken, h => by
    rw [sendLoop] at h
    cases h
    exact ⟨List.nil_prefix, fun hok => by cases hok⟩
  | some n :: sends, octet :: octets, ok, rest, taken, h => by
    rw [sendLoop] at h
    obtain ⟨⟨ok', rest', taken'⟩, hloop, heq⟩ := Option.map_eq_some_iff.mp h
    cases heq
    obtain ⟨hbegins, hall⟩ := sendLoop_sent hloop
    refine ⟨?_, fun hok => ?_⟩
    · obtain ⟨more, hmore⟩ := hbegins
      refine ⟨more, ?_⟩
      rw [List.append_assoc, hmore, List.take_append_drop]
    · rw [hall hok, List.take_append_drop]

/-- **What `net_send_all` sends is the beginning of the data**, all of it if it returns `TRUE`. -/
theorem netSendAll_sent {socket socket' : Socket} {data : Bytes} {ok : Bool}
    (h : netSendAll socket data = some (ok, socket')) : ∃ taken,
      socket'.sent = socket.sent ++ taken ∧ socket'.received = socket.received ∧ taken <+: data ∧
        (ok = true → taken = data) := by
  unfold netSendAll at h
  split at h
  · cases h
    exact ⟨[], (List.append_nil _).symm, rfl, List.nil_prefix, fun hok => by cases hok⟩
  · obtain ⟨⟨ok', rest, taken⟩, hloop, heq⟩ := Option.map_eq_some_iff.mp h
    cases heq
    obtain ⟨hbegins, hall⟩ := sendLoop_sent hloop
    exact ⟨taken, rfl, rfl, hbegins, hall⟩

theorem netRecv_received {socket socket' : Socket} {size : Nat} {got : Option Bytes}
    (h : netRecv socket size = some (got, socket')) : socket'.sent = socket.sent ∧
      (socket'.received = socket.received ∧ (got = none ∨ got = some []) ∨
        ∃ data, socket'.received = socket.received ++ [data] ∧ got = some data) := by
  unfold netRecv at h
  split at h
  · cases h
    exact ⟨rfl, .inl ⟨rfl, .inr rfl⟩⟩
  · split at h
    · cases h
    · cases h
      exact ⟨rfl, .inl ⟨rfl, .inl rfl⟩⟩
    · cases h
      exact ⟨rfl, .inl ⟨rfl, .inr rfl⟩⟩
    · cases h
      exact ⟨rfl, .inr ⟨_, rfl, rfl⟩⟩

/-! ## The digest -/

theorem wordOctets_toNat (word : Word) : wordOctets word =
    [24, 16, 8, 0].map (fun shift => UInt8.ofNat (word.toNat / 2 ^ shift)) := by
  have hword : word = BitVec.ofNat 32 word.toNat := by
    rw [BitVec.ofNat_toNat, BitVec.setWidth_eq]
  unfold wordOctets
  rw [hword]
  simp only [List.map_cons, List.map_nil]
  rw [octet_of_word (by omega), octet_of_word (by omega), octet_of_word (by omega),
    octet_of_word (by omega), ← hword]

/-- `%08x` writes the octets of a word. -/
theorem hexWord_eq (word : Word) : hexWord word = hexText (wordOctets word) := by
  rw [wordOctets_toNat]
  unfold hexWord hexText
  simp only [List.range_succ, List.range_zero, List.nil_append, List.cons_append, List.map_cons,
    List.map_nil, List.flatMap_cons, List.flatMap_nil, UInt8.toNat_ofNat', List.append_nil,
    List.cons.injEq, and_true]
  refine ⟨congrArg _ ?_, congrArg _ ?_, congrArg _ ?_, congrArg _ ?_, congrArg _ ?_, congrArg _ ?_,
    congrArg _ ?_, congrArg _ ?_⟩ <;> omega

theorem hexText_append (a b : Bytes) : hexText (a ++ b) = hexText a ++ hexText b :=
  List.flatMap_append

theorem length_hexText (octets : Bytes) : (hexText octets).length = 2 * octets.length := by
  induction octets with
  | nil => rfl
  | cons octet octets ih =>
    unfold hexText at ih ⊢
    rw [List.flatMap_cons, List.length_append, ih, List.length_cons]
    simp only [List.length_cons, List.length_nil]
    omega

theorem handshakeText_eq {sha : SHA1Context} {id pass : Bytes}
    (h : sha.messageDigest = sha1 ((id ++ pass).take (standardBufferSize - 1))) :
    handshakeText sha = handshake id pass := by
  unfold handshakeText handshake digestOctets
  rw [hexWord_eq, hexWord_eq, hexWord_eq, hexWord_eq, hexWord_eq, h, hexText_append, hexText_append,
    hexText_append, hexText_append]

/-- `strncpy` and `strncat` put together as much as there is room for. -/
theorem concatenated {id pass : Bytes} (h : id.length < standardBufferSize) :
    id ++ pass.take (standardBufferSize - id.length - 1)
      = (id ++ pass).take (standardBufferSize - 1) := by
  rw [List.take_append, List.take_of_length_le (Nat.le_sub_one_of_lt h), Nat.sub_right_comm]

/-- **The digest is that of the name and the secret**, whatever has been in the context before. -/
theorem authorize_eq {sha : SHA1Context} {socket : Socket} {id pass : Bytes}
    (hid : id.length < standardBufferSize) (hc : socket.connected = true) :
    authorize sha socket id pass = exchangeHandshake socket (handshake id pass) := by
  have hsize : standardBufferSize = 1024 := rfl
  have hshort : ((id ++ pass).take (standardBufferSize - 1)).length < 2 ^ 61 := by
    rw [List.length_take]
    omega
  obtain ⟨hcomputed, hdigest⟩ := sha1_of_text sha hshort
  unfold authorize
  rw [hc, if_neg (by simp), if_neg (Nat.not_le.mpr hid), concatenated hid]
  dsimp only
  rw [hcomputed, handshakeText_eq hdigest, if_neg (by simp)]

/-! ## The name of the stream -/

theorem prefix_isPrefixOf {a b : Bytes} : a.isPrefixOf b = true ↔ a <+: b :=
  List.isPrefixOf_iff_prefix

/-- **The first occurrence**: nothing that begins before it has the needle in front. -/
theorem strstr_eq_some {needle : Bytes} (hn : needle ≠ []) :
    ∀ {hay found : Bytes}, strstr needle hay = some found ↔ ∃ before, hay = before ++ found ∧
      needle <+: found ∧ ∀ u v, before = u ++ v → v ≠ [] → ¬ needle <+: v ++ found
  | [], found => by
    refine iff_of_false (by simp [strstr]) ?_
    rintro ⟨before, hhay, hfound, -⟩
    obtain ⟨-, rfl⟩ := List.append_eq_nil_iff.mp hhay.symm
    exact hn (List.prefix_nil.mp hfound)
  | octet :: octets, found => by
    rw [strstr]
    split
    · next hhere =>
      rw [prefix_isPrefixOf] at hhere
      constructor
      · intro h
        cases h
        refine ⟨[], rfl, hhere, fun u v huv hv => ?_⟩
        exact absurd (List.append_eq_nil_iff.mp huv.symm).2 hv
      · rintro ⟨before, hhay, -, hfirst⟩
        cases before with
        | nil => rw [hhay, List.nil_append]
        | cons b before =>
          refine absurd ?_ (hfirst [] (b :: before) rfl (List.cons_ne_nil _ _))
          rw [← hhay]
          exact hhere
    · next hhere =>
      rw [prefix_isPrefixOf] at hhere
      rw [strstr_eq_some hn]
      constructor
      · rintro ⟨before, rfl, hfound, hfirst⟩
        refine ⟨octet :: before, rfl, hfound, fun u v huv hv => ?_⟩
        cases u with
        | nil =>
          rw [List.nil_append] at huv
          rw [← huv]
          exact hhere
        | cons c u => exact hfirst u v (List.cons.inj huv).2 hv
      · rintro ⟨before, hhay, hfound, hfirst⟩
        cases before with
        | nil =>
          rw [List.nil_append] at hhay
          exact absurd (hhay ▸ hfound) hhere
        | cons b before =>
          refine ⟨before, (List.cons.inj hhay).2, hfound, fun u v huv hv => ?_⟩
          exact hfirst (b :: u) v (by rw [huv]; rfl) hv

/-- The first occurrence of one character. -/
theorem strstr_char {quote : UInt8} {hay found : Bytes} :
    strstr [quote] hay = some found ↔ ∃ id after, hay = id ++ quote :: after ∧
      found = quote :: after ∧ quote ∉ id := by
  rw [strstr_eq_some (List.cons_ne_nil _ _)]
  constructor
  · rintro ⟨id, hhay, ⟨after, rfl⟩, hfirst⟩
    refine ⟨id, after, hhay, rfl, fun hm => ?_⟩
    obtain ⟨u, v, rfl⟩ := List.append_of_mem hm
    exact hfirst u (quote :: v) rfl (List.cons_ne_nil _ _) ⟨v ++ quote :: after, rfl⟩
  · rintro ⟨id, after, hhay, rfl, hid⟩
    refine ⟨id, hhay, ⟨after, rfl⟩, fun u v huv hv hpre => ?_⟩
    cases v with
    | nil => exact hv rfl
    | cons c v =>
      obtain ⟨rest, hrest⟩ := hpre
      obtain rfl : quote = c := (List.cons.inj hrest).1
      exact hid (by rw [huv]; simp)

/-- The first `id=` is one that no other overlaps from the front. -/
theorem first_id_iff {before rest : Bytes} :
    (∀ u v, before = u ++ v → v ≠ [] → ¬ lit "id=" <+: v ++ (lit "id=" ++ rest)) ↔
      ¬ lit "id=" <:+: before ++ lit "id" := by
  have hlen : (lit "id=").length = 3 := by decide
  have hsplit : lit "id=" = lit "id" ++ lit "=" := by decide
  -- what begins in front of it ends before its `=`
  have hinside : ∀ v : Bytes, v ≠ [] →
      (lit "id=" <+: v ++ (lit "id=" ++ rest) ↔ lit "id=" <+: v ++ lit "id") := by
    intro v hv
    have hpos := List.length_pos_of_ne_nil hv
    have hfits : (lit "id=").length ≤ (v ++ lit "id").length := by
      rw [hlen, List.length_append, show (lit "id").length = 2 by decide]
      omega
    have happend : v ++ (lit "id=" ++ rest) = (v ++ lit "id") ++ (lit "=" ++ rest) := by
      rw [hsplit]
      simp
    rw [happend]
    exact ⟨fun h => List.prefix_of_prefix_length_le h (List.prefix_append _ _) hfits,
      fun h => h.trans (List.prefix_append _ _)⟩
  constructor
  · rintro hfirst ⟨u, w, hin⟩
    rw [List.append_assoc] at hin
    rcases List.append_eq_append_iff.mp hin with ⟨v, rfl, hv⟩ | ⟨v, -, hv⟩
    · have hne : v ≠ [] := by
        rintro rfl
        have hl := congrArg List.length hv
        rw [List.length_append, hlen, List.nil_append, show (lit "id").length = 2 by decide] at hl
        omega
      exact hfirst u v rfl hne ((hinside v hne).mpr ⟨w, hv⟩)
    · have hl := congrArg List.length hv
      rw [List.length_append, List.length_append, hlen, show (lit "id").length = 2 by decide] at hl
      omega
  · rintro hno u v rfl hv hpre
    obtain ⟨w, hw⟩ := (hinside v hv).mp hpre
    exact hno ⟨u, w, by rw [List.append_assoc, List.append_assoc, hw]⟩

theorem streamId_eq_some {greeting id : Bytes} :
    streamId greeting = some id ↔ NamesStream greeting id := by
  have hid : lit "id=" ≠ [] := by decide
  have hthree : 3 = (lit "id=").length := by decide
  unfold streamId NamesStream
  constructor
  · intro h
    obtain ⟨found, hfound, h⟩ := Option.bind_eq_some_iff.mp h
    obtain ⟨before, htext, ⟨rest, rfl⟩, hfirst⟩ := (strstr_eq_some hid).mp hfound
    have hdrop : (lit "id=" ++ rest).drop 3 = rest := by
      rw [hthree, List.drop_left]
    rw [hdrop] at h
    cases rest with
    | nil => cases h
    | cons quote rest =>
      obtain ⟨tail, htail, h⟩ := Option.bind_eq_some_iff.mp h
      cases h
      obtain ⟨id, after, rfl, rfl, hquote⟩ := strstr_char.mp htail
      have htake : (id ++ quote :: after).take
          ((id ++ quote :: after).length - (quote :: after).length) = id := by
        rw [List.length_append, Nat.add_sub_cancel, List.take_left]
      rw [htake]
      exact ⟨before, quote, after, by rw [htext]; simp, hquote,
        first_id_iff.mp hfirst⟩
  · rintro ⟨before, quote, after, htext, hquote, hfirst⟩
    have hfound : strstr (lit "id=") (cString greeting)
        = some (lit "id=" ++ quote :: id ++ quote :: after) := by
      refine (strstr_eq_some hid).mpr ⟨before, by rw [htext]; simp, ?_, ?_⟩
      · rw [List.append_assoc]
        exact List.prefix_append _ _
      · rw [List.append_assoc]
        exact first_id_iff.mpr hfirst
    have hdrop : (lit "id=" ++ quote :: id ++ quote :: after).drop 3
        = quote :: (id ++ quote :: after) := by
      rw [List.append_assoc, hthree, List.drop_left]
      rfl
    have htail : strstr [quote] (id ++ quote :: after) = some (quote :: after) :=
      strstr_char.mpr ⟨id, after, rfl, rfl, hquote⟩
    rw [hfound]
    simp only [Option.bind_eq_bind, Option.bind_some, hdrop, htail]
    rw [List.length_append, Nat.add_sub_cancel, List.take_left]
    rfl

/-- A name that has been read from a buffer is shorter than the buffer. -/
theorem NamesStream.length_lt {greeting id : Bytes} (h : NamesStream greeting id) :
    id.length < greeting.length := by
  obtain ⟨before, quote, after, htext, -⟩ := h
  have hle : (cString greeting).length ≤ greeting.length := List.takeWhile_sublist _ |>.length_le
  rw [htext] at hle
  simp only [List.length_append, List.length_cons] at hle
  omega

/-! ## The conversation -/

theorem exchangeHandshake_said {socket socket' : Socket} {text : Bytes} {ok : Bool}
    (h : exchangeHandshake socket text = some (ok, socket')) :
    (∃ taken, socket'.sent = socket.sent ++ taken ∧ socket'.received = socket.received ∧
      taken <+: text ∧ ok = false) ∨
    ∃ reply, socket'.sent = socket.sent ++ text ∧ socket'.received = socket.received ++ [reply] ∧
      ok = decide (cString reply = lit "<handshake/>") := by
  unfold exchangeHandshake at h
  obtain ⟨⟨complete, socket₁⟩, hsend, h⟩ := Option.bind_eq_some_iff.mp h
  obtain ⟨taken, hsent, hreceived, hbegins, hall⟩ := netSendAll_sent hsend
  dsimp only at h
  split at h
  · cases h
    exact .inl ⟨taken, hsent, hreceived, hbegins, rfl⟩
  · next hcomplete =>
    have htaken : taken = text := hall (by simpa using hcomplete)
    obtain ⟨⟨got, socket₂⟩, hrecv, h⟩ := Option.bind_eq_some_iff.mp h
    obtain ⟨hsent₂, hgot⟩ := netRecv_received hrecv
    rcases hgot with ⟨hsame, rfl | rfl⟩ | ⟨reply, hmore, rfl⟩
    · cases h
      exact .inl ⟨taken, hsent₂.trans hsent, hsame.trans hreceived, hbegins, rfl⟩
    · cases h
      exact .inl ⟨taken, hsent₂.trans hsent, hsame.trans hreceived, hbegins, rfl⟩
    · cases h
      refine .inr ⟨reply, by rw [hsent₂, hsent, htaken], by rw [hmore, hreceived], ?_⟩
      cases reply with
      | nil => rfl
      | cons octet octets =>
        rw [List.isEmpty_cons, Bool.not_false, Bool.true_and, Bool.eq_iff_iff, beq_iff_eq,
          decide_eq_true_eq]
        rfl

theorem authorize_said {sha : SHA1Context} {socket socket' : Socket} {id pass : Bytes} {ok : Bool}
    (h : authorize sha socket id pass = some (ok, socket')) :
    (∃ taken, socket'.sent = socket.sent ++ taken ∧ socket'.received = socket.received ∧
      taken <+: handshake id pass ∧ ok = false) ∨
    ∃ reply, socket'.sent = socket.sent ++ handshake id pass ∧
      socket'.received = socket.received ++ [reply] ∧
      ok = decide (cString reply = lit "<handshake/>") := by
  cases hc : socket.connected with
  | false =>
    unfold authorize at h
    rw [hc, if_pos (by rfl)] at h
    cases h
    exact .inl ⟨[], (List.append_nil _).symm, rfl, List.nil_prefix, rfl⟩
  | true =>
    have hid : id.length < standardBufferSize := by
      by_contra hlong
      unfold authorize at h
      rw [hc, if_neg (by simp), if_pos (Nat.le_of_not_lt hlong)] at h
      cases h
    rw [authorize_eq hid hc] at h
    exact exchangeHandshake_said h

/--
**Every conversation is one of a few.** Whatever pieces the socket takes and brings and whenever it
fails: what has been sent is the opening tag and the handshake for the name that the server has
given, or the beginning of that, and the component takes itself for accepted if and only if the
server has acknowledged the whole of it.
-/
theorem stream_conversation {sha : SHA1Context} {socket socket' : Socket}
    {source target pass : Bytes} {ok : Bool}
    (h : netStream sha socket source target pass = some (ok, socket')) :
    ∃ received sent, socket'.received = socket.received ++ received ∧
      socket'.sent = socket.sent ++ sent ∧ Conversation source target pass received sent ok := by
  unfold netStream at h
  split at h
  · cases h
    exact ⟨[], [], (List.append_nil _).symm, (List.append_nil _).symm, .opening [] List.nil_prefix⟩
  · split at h
    · cases h
    · obtain ⟨⟨complete, socket₁⟩, hsend, h⟩ := Option.bind_eq_some_iff.mp h
      obtain ⟨taken, hsent, hreceived, hbegins, hall⟩ := netSendAll_sent hsend
      dsimp only at h
      split at h
      · cases h
        exact ⟨[], taken, hreceived.trans (List.append_nil _).symm, hsent, .opening taken hbegins⟩
      · next hcomplete =>
        have htaken : taken = streamOpening source target := hall (by simpa using hcomplete)
        obtain ⟨⟨got, socket₂⟩, hrecv, h⟩ := Option.bind_eq_some_iff.mp h
        obtain ⟨hsent₂, hgot⟩ := netRecv_received hrecv
        have hnothing : streamId [] = none := by decide
        rcases hgot with ⟨hsame, rfl | rfl⟩ | ⟨greeting, hmore, rfl⟩
        · cases h
          exact ⟨[], taken, (hsame.trans hreceived).trans (List.append_nil _).symm,
            hsent₂.trans hsent, .opening taken hbegins⟩
        · dsimp only at h
          unfold greeted at h
          rw [hnothing] at h
          cases h
          exact ⟨[], taken, (hsame.trans hreceived).trans (List.append_nil _).symm,
            hsent₂.trans hsent, .opening taken hbegins⟩
        · dsimp only at h
          unfold greeted at h
          cases hid : streamId greeting with
          | none =>
            rw [hid] at h
            cases h
            refine ⟨[greeting], _, by rw [hmore, hreceived], by rw [hsent₂, hsent, htaken],
              .greeted greeting fun id hn => ?_⟩
            rw [streamId_eq_some.mpr hn] at hid
            cases hid
          | some id =>
            rw [hid] at h
            have hnames := streamId_eq_some.mp hid
            rcases authorize_said h with ⟨taken, hs, hr, hpre, rfl⟩ | ⟨reply, hs, hr, rfl⟩
            · exact ⟨[greeting], _, by rw [hr, hmore, hreceived],
                by rw [hs, hsent₂, hsent, htaken, List.append_assoc],
                .shaking greeting id taken hnames hpre⟩
            · exact ⟨[greeting, reply], _, by rw [hr, hmore, hreceived, List.append_assoc]; rfl,
                by rw [hs, hsent₂, hsent, htaken, List.append_assoc], .answered greeting id reply hnames⟩

/-- What a server says that knows what to say. -/
def quietGreeting : Bytes := lit "<stream:stream from='conf' id='3BF96D32'>"

/-- A socket on which seven bytes go at a time, with such a server behind it. -/
def quietSocket : Socket where
  connected := true
  sends := List.replicate 300 (some 7)
  recvs := [.bytes quietGreeting, .bytes (lit "<handshake/>")]
  sent := []
  received := []

/-- A context that nobody has set. -/
def anyContext : SHA1Context where
  messageDigest := sha1Start
  lengthLow := 7
  lengthHigh := 7
  messageBlock := ⟨List.replicate 64 7, List.length_replicate⟩
  messageBlockIndex := 7
  computed := true
  corrupted := true

set_option maxRecDepth 100000 in
/-- The result for a component that is accepted. -/
theorem stream_conversation_quiet : ∃ received sent,
    Conversation (lit "xmcomp") (lit "conf") (lit "secret") received sent true := by
  have hany : (netStream anyContext quietSocket (lit "xmcomp") (lit "conf") (lit "secret")).any
      Prod.fst = true := by decide +kernel
  obtain ⟨⟨ok, socket'⟩, hstream, hok⟩ := (Option.any_eq_true _ _).mp hany
  obtain rfl : ok = true := hok
  obtain ⟨received, sent, -, -, hsaid⟩ := stream_conversation hstream
  exact ⟨received, sent, hsaid⟩

/-! ## With a server that follows -/

/-- Every call of `send` takes something. -/
def Takes (sends : List (Option Nat)) : Prop := ∀ n ∈ sends, ∃ k, n = some (k + 1)

/-- **Data are sent whole, in whatever pieces.** -/
theorem sendLoop_takes : ∀ {sends : List (Option Nat)} {data : Bytes}, Takes sends →
    data.length ≤ sends.length → ∃ rest, sendLoop sends data = some (true, rest, data) ∧
      Takes rest ∧ sends.length ≤ rest.length + data.length
  | sends, [], htakes, _ => ⟨sends, by rw [sendLoop], htakes, Nat.le_refl _⟩
  | [], _ :: _, _, hlen => absurd hlen (Nat.not_succ_le_zero _)
  | n :: sends, octet :: octets, htakes, hlen => by
    obtain ⟨k, rfl⟩ := htakes n List.mem_cons_self
    have htakes' : Takes sends := fun m hm => htakes m (List.mem_cons_of_mem _ hm)
    have hdrop : ((octet :: octets).drop (k + 1)).length ≤ octets.length := by
      rw [List.drop_succ_cons, List.length_drop]
      exact Nat.sub_le _ _
    rw [List.length_cons, List.length_cons] at hlen
    obtain ⟨rest, hloop, hrest, hcount⟩ :=
      @sendLoop_takes sends ((octet :: octets).drop (k + 1)) htakes' (by omega)
    refine ⟨rest, ?_, hrest, ?_⟩
    · rw [sendLoop, hloop, Option.map_some, List.take_append_drop]
    · rw [List.length_cons, List.length_cons]
      omega

theorem netSendAll_takes {socket : Socket} {data : Bytes} (hc : socket.connected = true)
    (htakes : Takes socket.sends) (hlen : data.length ≤ socket.sends.length) :
    ∃ socket', netSendAll socket data = some (true, socket') ∧ socket'.connected = true ∧
      socket'.recvs = socket.recvs ∧ socket'.sent = socket.sent ++ data ∧
      socket'.received = socket.received ∧ Takes socket'.sends ∧
      socket.sends.length ≤ socket'.sends.length + data.length := by
  obtain ⟨rest, hloop, hrest, hcount⟩ := sendLoop_takes htakes hlen
  refine ⟨{ socket with sends := rest, sent := socket.sent ++ data }, ?_, hc, rfl, rfl, rfl, hrest,
    hcount⟩
  unfold netSendAll
  rw [hc, if_neg (by simp), hloop]
  rfl

theorem netRecv_bytes {socket : Socket} {data : Bytes} {recvs : List RecvResult} {size : Nat}
    (hc : socket.connected = true) (hrecvs : socket.recvs = .bytes data :: recvs)
    (hne : data ≠ []) (hsize : data.length ≤ size) :
    ∃ socket', netRecv socket size = some (some data, socket') ∧ socket'.connected = true ∧
      socket'.sends = socket.sends ∧ socket'.recvs = recvs ∧ socket'.sent = socket.sent ∧
      socket'.received = socket.received ++ [data] := by
  refine ⟨{ socket with recvs := recvs, received := socket.received ++ [data] }, ?_, hc, rfl, rfl,
    rfl, rfl⟩
  unfold netRecv
  rw [hc, if_neg (by simp), hrecvs]
  dsimp only
  rw [List.take_of_length_le hsize, if_neg (Nat.not_lt.mpr hsize)]
  cases data with
  | nil => exact absurd rfl hne
  | cons octet octets => rfl

theorem length_handshake (id pass : Bytes) : (handshake id pass).length = 63 := by
  have hword : ∀ word : Word, (wordOctets word).length = 4 := fun _ => rfl
  have hopen : (lit "<handshake>").length = 11 := by decide
  have hclose : (lit "</handshake>").length = 12 := by decide
  unfold handshake digestOctets
  simp only [List.length_append, length_hexText, hword, hopen, hclose]

/--
**The component is accepted by a server that follows**, whatever pieces the socket takes: the server
names the stream and acknowledges the handshake, each in one piece that fits the buffer.
-/
theorem stream_established {sha : SHA1Context} {socket : Socket}
    {source target pass greeting id reply : Bytes} {recvs : List RecvResult}
    (hc : socket.connected = true) (hfits : (streamOpening source target).length < standardBufferSize)
    (htakes : Takes socket.sends)
    (hmany : (streamOpening source target).length + 63 ≤ socket.sends.length)
    (hrecvs : socket.recvs = .bytes greeting :: .bytes reply :: recvs)
    (hgreeting : greeting.length < standardBufferSize) (hid : NamesStream greeting id)
    (hreply : reply.length < standardBufferSize) (hack : cString reply = lit "<handshake/>") :
    ∃ socket', netStream sha socket source target pass = some (true, socket') ∧
      socket'.connected = true ∧
      socket'.sent = socket.sent ++ (streamOpening source target ++ handshake id pass) ∧
      socket'.received = socket.received ++ [greeting, reply] := by
  have hlt := hid.length_lt
  have hlen := length_handshake id pass
  have hgreeting_ne : greeting ≠ [] := by
    rintro rfl
    exact absurd hlt (Nat.not_lt_zero _)
  have hreply_ne : reply ≠ [] := by
    rintro rfl
    revert hack
    decide
  obtain ⟨socket₁, hsend₁, hc₁, hrecvs₁, hsent₁, hreceived₁, htakes₁, hcount₁⟩ :=
    @netSendAll_takes socket (streamOpening source target) hc htakes (by omega)
  obtain ⟨socket₂, hrecv₂, hc₂, hsends₂, hrecvs₂, hsent₂, hreceived₂⟩ :=
    @netRecv_bytes socket₁ greeting (.bytes reply :: recvs) (standardBufferSize - 1) hc₁
      (hrecvs₁.trans hrecvs) hgreeting_ne (Nat.le_sub_one_of_lt hgreeting)
  obtain ⟨socket₃, hsend₃, hc₃, hrecvs₃, hsent₃, hreceived₃, -, -⟩ :=
    @netSendAll_takes socket₂ (handshake id pass) hc₂ (hsends₂ ▸ htakes₁) (by
      rw [hsends₂]
      omega)
  obtain ⟨socket₄, hrecv₄, hc₄, -, -, hsent₄, hreceived₄⟩ :=
    @netRecv_bytes socket₃ reply recvs (standardBufferSize - 1) hc₃ (hrecvs₃.trans hrecvs₂)
      hreply_ne (Nat.le_sub_one_of_lt hreply)
  refine ⟨socket₄, ?_, hc₄, ?_, ?_⟩
  · have hexchange : exchangeHandshake socket₂ (handshake id pass) = some (true, socket₄) := by
      unfold exchangeHandshake
      simp only [hsend₃, hrecv₄, Option.bind_eq_bind, Option.bind_some, Bool.not_true,
        Bool.false_eq_true, if_false, hack]
      cases reply with
      | nil => exact absurd rfl hreply_ne
      | cons octet octets => rfl
    unfold netStream
    rw [hc, if_neg (by simp), if_neg (Nat.not_le.mpr hfits)]
    simp only [hsend₁, hrecv₂, Option.bind_eq_bind, Option.bind_some, Bool.not_true,
      Bool.false_eq_true, if_false]
    unfold greeted
    rw [streamId_eq_some.mpr hid]
    exact (authorize_eq (Nat.lt_trans hlt hgreeting) hc₂).trans hexchange
  · rw [hsent₄, hsent₃, hsent₂, hsent₁, List.append_assoc]
  · rw [hreceived₄, hreceived₃, hreceived₂, hreceived₁, List.append_assoc]
    rfl

set_option maxRecDepth 100000 in
/-- The result for the socket on which seven bytes go at a time. -/
theorem stream_established_quiet : ∃ socket',
    netStream anyContext quietSocket (lit "xmcomp") (lit "conf") (lit "secret")
        = some (true, socket') ∧
      socket'.connected = true ∧
      socket'.sent = [] ++ (streamOpening (lit "xmcomp") (lit "conf") ++
        handshake (lit "3BF96D32") (lit "secret")) ∧
      socket'.received = [] ++ [quietGreeting, lit "<handshake/>"] := by
  have htakes : Takes quietSocket.sends := fun n hn => ⟨6, List.eq_of_mem_replicate hn⟩
  have hnames : NamesStream quietGreeting (lit "3BF96D32") :=
    streamId_eq_some.mp (by decide +kernel)
  exact @stream_established anyContext quietSocket (lit "xmcomp") (lit "conf") (lit "secret")
    quietGreeting (lit "3BF96D32") (lit "<handshake/>") [] rfl (by decide +kernel) htakes
    (by decide +kernel) rfl (by decide +kernel) hnames (by decide +kernel) (by decide +kernel)

end Mukite
