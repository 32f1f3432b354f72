import Mukite.Properties.Answers
import Mukite.Properties.Bounces
import Mukite.Properties.JidText

/-!
# Error replies from where the stanza went

The error for a stanza is mirrored if it goes back to the sender of the stanza, from the address
that the stanza had, with the payload that it had (`Mirrored`).

* `StanzaRead.answeredValues`: what becomes of the values in the header. The clean-up takes away
  the last of each name, `builder_build` adds one, so that only those that stood once are replaced.
* `sender_of_answer`: where the reply comes from. The address in it is not longer than the one of
  the stanza, so that it is the same only if nothing is missing and no quote cuts it off.
* **`error_mirrored_iff`**: exactly when an error of the table is mirrored.
-/

namespace Mukite

open HeaderPiece

/-! ## Stanzas as text -/

/-- What a reader finds in a stanza: its name, its attributes and what is behind them. -/
structure StanzaText (text : Bytes) (name : StanzaName) (attrs : List AttrText)
    (rest : Bytes) : Prop where
  named : ∃ word data, xmlfsmNodeName text { data := 0, stop := text.length }
      = some (word, data) ∧ stanzaNameOf text word = name ∧
    text.drop data = attrsText attrs ++ rest
  scannable : ∀ a ∈ attrs, a.Scannable

/-- Names and values of attributes. -/
def pairsOf (attrs : List AttrText) : List (Bytes × Bytes) := attrs.map AttrText.pair

theorem pairsOf_append (attrs more : List AttrText) :
    pairsOf (attrs ++ more) = pairsOf attrs ++ pairsOf more := List.map_append

/-- The value that `packet_parse` keeps for a name, the last one. -/
def lastValue (word : Bytes) (attrs : List AttrText) : Option Bytes :=
  (valuesOf word (pairsOf attrs)).getLast?

/-- The error `reply` to a stanza with the given attributes is what the sender can expect. -/
structure MirroredBy (attrs : List AttrText) (ingress : IncomingPacket) (error : XMPPError)
    (reply : Bytes) (answer : List AttrText) (payload : Buffer) : Prop where
  inner : ingress.innerBytes = some payload
  text : StanzaText reply ingress.name answer
    (ch '>' :: (bptBytes payload ++ (buildError error ++ endTag ingress.name)))
  recipient : valuesOf (lit "to") (pairsOf answer) = (lastValue (lit "from") attrs).toList
  sender : valuesOf (lit "from") (pairsOf answer) = (lastValue (lit "to") attrs).toList
  type : valuesOf (lit "type") (pairsOf answer) = [lit "error"]
  id : valuesOf (lit "id") (pairsOf answer) = valuesOf (lit "id") (pairsOf attrs)

/-- The error goes back to the sender, from the address of the stanza and with its payload. -/
def Mirrored (attrs : List AttrText) (ingress : IncomingPacket) (error : XMPPError)
    (reply : Bytes) : Prop :=
  ∃ answer payload, MirroredBy attrs ingress error reply answer payload

theorem stanzaText_iff {name : StanzaName} {body rest : Bytes} {attrs : List AttrText}
    (hname : name ≠ .unset) (hbody : ∃ c r, body = c :: r ∧ NameEnds c) :
    StanzaText (tagStart name ++ body) name attrs rest ↔
      (∀ a ∈ attrs, a.Scannable) ∧ body = attrsText attrs ++ rest := by
  obtain ⟨c, r, rfl, hc⟩ := hbody
  obtain ⟨hword, hsame⟩ := @nodeName_of_tagStart name c r hname hc
  constructor
  · rintro ⟨⟨word, data, hn, -, hdrop⟩, hscan⟩
    rw [hword, Option.some.injEq, Prod.mk.injEq] at hn
    obtain ⟨rfl, rfl⟩ := hn
    rw [List.drop_left] at hdrop
    exact ⟨hscan, hdrop⟩
  · rintro ⟨hscan, hdrop⟩
    exact ⟨⟨_, _, hword, hsame, by rw [List.drop_left, hdrop]⟩, hscan⟩

/-! ## The values in the header -/

theorem valuesOf_of_none {word : Bytes} {attrs : List AttrText}
    (h : ∀ a ∈ attrs, a.name ≠ word) : valuesOf word (pairsOf attrs) = [] := by
  unfold valuesOf pairsOf
  rw [List.map_eq_nil_iff, List.filter_eq_nil_iff]
  intro x hx hw
  obtain ⟨a, ha, rfl⟩ := List.mem_map.mp hx
  exact h a ha (beq_iff_eq.mp hw)

theorem LastAttr.lastValue {word : Bytes} {attrs : List AttrText} {a : AttrText}
    (h : LastAttr word attrs a) : Mukite.lastValue word attrs = some a.value := by
  obtain ⟨pre, post, rfl, rfl, hpost⟩ := h
  unfold Mukite.lastValue
  rw [pairsOf_append, valuesOf_append]
  show (_ ++ valuesOf a.name ((a.name, a.value) :: pairsOf post)).getLast? = _
  rw [valuesOf_cons_self, valuesOf_of_none hpost, List.getLast?_append]
  rfl

section Answered

variable {mem : Bytes} {attrs : List AttrText} {ingress : IncomingPacket}

/-- The values of the header that is answered, by name. -/
structure AnsweredValues (attrs : List AttrText) (pairs : List (Bytes × Bytes)) : Prop where
  sender : valuesOf (lit "from") pairs = (valuesOf (lit "from") (pairsOf attrs)).dropLast
  recipient : (valuesOf (lit "to") pairs).Perm
    ((lastValue (lit "from") attrs).toList ++ (valuesOf (lit "to") (pairsOf attrs)).dropLast)
  type : valuesOf (lit "type") pairs = (valuesOf (lit "type") (pairsOf attrs)).dropLast
  id : valuesOf (lit "id") pairs = valuesOf (lit "id") (pairsOf attrs)

theorem valuesOf_nameless_sender (attrs : List AttrText) :
    valuesOf (lit "from") (survivors (nameless attrs)) = valuesOf (lit "from") (pairsOf attrs) := by
  unfold nameless
  rw [valuesOf_blankedLast_ne (by decide), valuesOf_blankedLast_ne (by decide),
    survivors_map_kept]
  rfl

/-- **What becomes of the values in a header that is answered.** -/
theorem answeredValues (attrs : List AttrText) :
    AnsweredValues attrs (survivors (answeredHeader attrs)) where
  sender := by
    unfold answeredHeader
    have hmark := @valuesOf_switchedLast_ne (lit "from") (by decide)
    exact (valuesOf_markLast_self hmark (blanks_nameless attrs)).trans
      (congrArg List.dropLast (valuesOf_nameless_sender attrs))
  recipient := by
    have hto : valuesOf (lit "to") (survivors (nameless attrs))
        = (valuesOf (lit "to") (pairsOf attrs)).dropLast := by
      unfold nameless
      refine (valuesOf_blankedLast_self (blanks_map_kept attrs).markLast).trans ?_
      rw [valuesOf_blankedLast_ne (by decide), survivors_map_kept]
      rfl
    have hperm := valuesOf_switchedLast (blanks_nameless attrs)
    rw [valuesOf_nameless_sender, hto] at hperm
    exact hperm
  type := by
    unfold answeredHeader nameless
    rw [valuesOf_markLast_ne (by decide) (valuesOf_switchedLast_ne (by decide)),
      valuesOf_blankedLast_ne (by decide)]
    refine (valuesOf_blankedLast_self (blanks_map_kept attrs)).trans ?_
    rw [survivors_map_kept]
    rfl
  id := by
    unfold answeredHeader nameless
    rw [valuesOf_markLast_ne (by decide) (valuesOf_switchedLast_ne (by decide)),
      valuesOf_blankedLast_ne (by decide), valuesOf_blankedLast_ne (by decide),
      survivors_map_kept]
    rfl

/-- What is left of an attribute is one. -/
theorem scannable_of_comes {ps : List HeaderPiece} (h : ∀ a ∈ ps.map attr, a.Scannable)
    {x : AttrText} (hx : Comes ps x) : x.Scannable := by
  cases hx with
  | kept a space hm hspace he =>
    obtain ⟨hlead, hstart, hname, hgapStart, hgap, hquote, hvalue⟩ :=
      h a (List.mem_map.mpr ⟨_, hm, rfl⟩)
    subst he
    exact ⟨white_append hspace hlead, hstart, hname, hgapStart, hgap, hquote, hvalue⟩
  | switched a space hm hspace he =>
    obtain ⟨hlead, -, -, hgapStart, hgap, hquote, hvalue⟩ := h a (List.mem_map.mpr ⟨_, hm, rfl⟩)
    have hto : ∀ c ∈ lit "to", (!whitespace c && c != ch '=') = true :=
      List.all_eq_true.mp (by decide)
    have hblank : ∀ c ∈ lit "  ", whitespace c = true := List.all_eq_true.mp (by decide)
    subst he
    refine ⟨white_append hspace (white_append hlead hblank), ?_, hto, hgapStart, hgap,
      hquote, hvalue⟩
    rintro c ⟨⟩
    decide

/-- The attributes of a header that is answered, and what is left behind them. -/
theorem StanzaRead.exists_answered (h : StanzaRead mem attrs ingress) : ∃ kept space,
    piecesText (answeredHeader attrs) = attrsText kept ++ space ∧
      (∀ a ∈ kept, a.Scannable) ∧ (∀ c ∈ space, whitespace c = true) ∧
      AnsweredValues attrs (pairsOf kept) := by
  have hattrs : ∀ a ∈ (answeredHeader attrs).map attr, a.Scannable := by
    rw [(replaces_answeredHeader attrs).attrs]
    exact h.read.scannable
  have hlead : ∀ p ∈ answeredHeader attrs, ∀ c ∈ p.attr.lead, whitespace c = true :=
    fun p hp => (hattrs p.attr (List.mem_map_of_mem hp)).lead
  obtain ⟨hcomes, hwhite⟩ := absorb_comes hlead (List.forall_mem_nil _)
  refine ⟨_, _, (attrsText_absorb (answeredHeader attrs) []).symm,
    fun a ha => scannable_of_comes hattrs (hcomes a ha), hwhite, ?_⟩
  unfold pairsOf
  rw [pairs_absorb]
  exact answeredValues attrs

/-- The first attribute stands apart from the name. -/
theorem StanzaRead.exists_lead (h : StanzaRead mem attrs ingress) (hne : attrs ≠ []) :
    ∃ a more c lead, attrs = a :: more ∧ a.lead = c :: lead := by
  obtain ⟨a, more, rfl⟩ := List.exists_cons_of_ne_nil hne
  obtain ⟨word, hword, -⟩ := h.name
  unfold xmlfsmNodeName at hword
  obtain ⟨lt, -, hword⟩ := Option.bind_eq_some_iff.mp hword
  obtain ⟨n, hn, hword⟩ := Option.bind_eq_some_iff.mp hword
  obtain ⟨rfl, hdata⟩ := Prod.mk.inj (Option.some.inj hword)
  obtain ⟨pre, c, rest, hdrop, rfl, -, hc⟩ := exists_of_skip hn
  have htext := h.read.text
  rw [← hdata, drop_add_of_drop hdrop, attrsText_cons, AttrText.text] at htext
  cases hlead : a.lead with
  | cons d lead => exact ⟨a, more, d, lead, rfl, hlead⟩
  | nil =>
    -- the name would have gone on
    obtain ⟨d, tail, hstart, hwhite, hslash, hend⟩ :=
      (h.read.scannable a List.mem_cons_self).exists_start
    rw [hlead, List.nil_append, AttrText.rest, ← List.append_assoc a.name, hstart] at htext
    obtain ⟨rfl, -⟩ := List.cons.inj htext
    simp [hwhite, hslash, hend] at hc

end Answered

/-! ## The text of the reply -/

/-- The two attributes that `builder_build` adds to an error. -/
def errorAttrs (space address : Bytes) : List AttrText :=
  [builtAttr (space ++ lit " ") "from" address, builtAttr (lit " ") "type" (lit "error")]

/-- The start tag of an error behind its name, and what follows it. -/
def errorBody (header address rest : Bytes) : Bytes :=
  header ++ (lit " from='" ++ (address ++ (lit "' type='error'>" ++ rest)))

theorem errorBody_attrs (kept : List AttrText) (space address rest : Bytes) :
    errorBody (attrsText kept ++ space) address rest
      = attrsText (kept ++ errorAttrs space address) ++ ch '>' :: rest := by
  have hfrom : lit " from='" = lit " " ++ (lit "from" ++ (lit "=" ++ [quote1])) := by decide
  have htype : lit "' type='error'>" = quote1 ::
      (lit " " ++ (lit "type" ++ (lit "=" ++ quote1 :: (lit "error" ++ [quote1, ch '>'])))) := by
    decide
  unfold errorBody errorAttrs
  rw [hfrom, htype]
  simp [builtAttr, AttrText.text, AttrText.rest]

theorem errorAttrs_scannable {space address : Bytes} (hspace : ∀ c ∈ space, whitespace c = true)
    (haddress : quote1 ∉ address) : ∀ a ∈ errorAttrs space address, a.Scannable := by
  intro a ha
  rcases List.mem_cons.mp ha with rfl | ha
  · exact (builtAttr_written hspace (by decide) haddress).scannable
  · rw [List.mem_singleton.mp ha]
    exact (builtAttr_written (List.forall_mem_nil _) (by decide) (by decide)).scannable

theorem tagEnds_gt (rest : Bytes) : TagEnds (ch '>' :: rest) :=
  ⟨[], ch '>', rest, rfl, List.forall_mem_nil _, .inr rfl⟩

/-- **What `worker_bounce` makes is written as an error.** -/
theorem exists_reply {ingress : IncomingPacket} {error : XMPPError} {node : Buffer}
    {packet : BuilderPacket} (fromHost : Bytes)
    (h : workerBounce ingress error node = some packet) : ∃ inner,
    (packetCleanup ingress (packetCleanupTo ||| packetCleanupSwitchFromTo)).innerBytes
        = some inner ∧
      builderBuild fromHost packet = some (tagStart ingress.name ++ errorBody
        (packetCleanup ingress (packetCleanupTo ||| packetCleanupSwitchFromTo)).headerBytes
        (nodeHead node ++ fromHost)
        (bptBytes inner ++ (buildError error ++ endTag ingress.name))) := by
  obtain ⟨inner, hinner, h⟩ := Option.bind_eq_some_iff.mp h
  cases h
  refine ⟨inner, hinner, ?_⟩
  have hname : (packetCleanup ingress (packetCleanupTo ||| packetCleanupSwitchFromTo)).name
      = ingress.name := rfl
  have hzero : stanzaError ≠ 0 := by decide
  have hempty : jidEmpty jidInit = true := by decide
  have htail : lit "' type='" ++ (lit "error" ++ lit "'>") = lit "' type='error'>" := by decide
  have hfrom : ∀ packet : BuilderPacket, packet.fromNick = none →
      fromText fromHost packet = nodeHead packet.fromNode ++ fromHost := by
    intro packet hnick
    unfold fromText nodeHead
    rw [hnick, List.append_nil]
    cases packet.fromNode <;> rfl
  unfold builderBuild builderAddition presenceAddition
  dsimp only
  rw [if_pos (.inr rfl), if_pos rfl, Option.map_some]
  unfold builderHead typeName errorBody
  dsimp only
  rw [hfrom _ rfl, hempty, if_pos rfl, if_neg hzero, if_pos rfl, hname, ← htail]
  simp [bptBytes]

/-! ## Where the reply comes from -/

/-- What is written behind a quote goes at least to the next one. -/
theorem exists_value (address rest : Bytes) : ∃ value more,
    address ++ quote1 :: rest = value ++ quote1 :: more ∧ value <+: address ∧ quote1 ∉ value := by
  induction address with
  | nil => exact ⟨[], rest, rfl, List.prefix_refl _, List.not_mem_nil⟩
  | cons c address ih =>
    by_cases hc : c = quote1
    · exact ⟨[], address ++ quote1 :: rest, by rw [hc]; rfl, List.nil_prefix, List.not_mem_nil⟩
    · obtain ⟨value, more, htext, hprefix, hquote⟩ := ih
      refine ⟨c :: value, more, by rw [List.cons_append, htext]; rfl,
        List.cons_prefix_cons.mpr ⟨rfl, hprefix⟩, ?_⟩
      rw [List.mem_cons, not_or]
      exact ⟨Ne.symm hc, hquote⟩

/-- **The reply comes from the address of the stanza only if that is written out and has no
quote.** -/
theorem sender_of_answer {kept answer : List AttrText} {space address wanted rest more : Bytes}
    (hkept : ∀ a ∈ kept, a.Scannable) (hanswer : ∀ a ∈ answer, a.Scannable)
    (hspace : ∀ c ∈ space, whitespace c = true) (hle : address.length ≤ wanted.length)
    (h : errorBody (attrsText kept ++ space) address rest = attrsText answer ++ ch '>' :: more)
    (hvalue : valuesOf (lit "from") (pairsOf answer) = [wanted]) :
    address = wanted ∧ quote1 ∉ wanted ∧ valuesOf (lit "from") (pairsOf kept) = [] ∧
      answer = kept ++ errorAttrs space address ∧ more = rest := by
  -- the attribute as the scanner sees it
  have hquoted : lit "' type='error'>" = quote1 :: lit " type='error'>" := by decide
  obtain ⟨value, behind, htext, hprefix, hquote⟩ :=
    exists_value address (lit " type='error'>" ++ rest)
  have hseen : ∀ a ∈ kept ++ [builtAttr (space ++ lit " ") "from" value], a.Scannable := by
    intro a ha
    rcases List.mem_append.mp ha with ha | ha
    · exact hkept a ha
    · rw [List.mem_singleton.mp ha]
      exact (builtAttr_written hspace (by decide) hquote).scannable
  have hbody : errorBody (attrsText kept ++ space) address rest
      = attrsText (kept ++ [builtAttr (space ++ lit " ") "from" value]) ++ behind := by
    have hfrom : lit " from='" = lit " " ++ (lit "from" ++ (lit "=" ++ [quote1])) := by decide
    unfold errorBody
    rw [hquoted, List.cons_append, htext, hfrom]
    simp [builtAttr, AttrText.text, AttrText.rest]
  obtain ⟨later, hfront, -⟩ := attrsText_front hseen hanswer (tagEnds_gt more) (hbody.symm.trans h)
  -- it has the value that is wanted, so nothing of the address is missing
  have hvalues : valuesOf (lit "from") (pairsOf kept) ++
      value :: valuesOf (lit "from") (pairsOf later) = [wanted] := by
    rw [← hvalue, hfront, pairsOf_append, pairsOf_append, valuesOf_append, valuesOf_append,
      List.append_assoc]
    show _ = _ ++ (valuesOf (lit "from") [(lit "from", value)] ++ _)
    rw [valuesOf_cons_self]
    rfl
  obtain ⟨hnone, hsame⟩ : valuesOf (lit "from") (pairsOf kept) = [] ∧ value = wanted := by
    cases hk : valuesOf (lit "from") (pairsOf kept) with
    | nil =>
      rw [hk] at hvalues
      exact ⟨rfl, (List.cons.inj hvalues).1⟩
    | cons x xs =>
      rw [hk] at hvalues
      have := (List.cons.inj hvalues).2
      simp at this
  subst hsame
  have hwhole : value = address := hprefix.eq_of_length_le hle
  subst hwhole
  have hanswer' := errorAttrs_scannable hspace hquote
  rw [errorBody_attrs] at h
  obtain ⟨hattrs, hrest⟩ := attrsText_inj (fun a ha => (List.mem_append.mp ha).elim
    (hkept a) (hanswer' a)) hanswer (tagEnds_gt rest) (tagEnds_gt more) h
  exact ⟨rfl, hquote, hnone, hattrs.symm, (List.cons.inj hrest).2.symm⟩

/-! ## The payload of the reply -/

/-- **The payload comes back whole only if there was no `<x/>` of the room in it.** -/
theorem payload_kept_iff {ingress : IncomingPacket} (h : Accepted ingress) {payload inner : Buffer}
    (hpayload : ingress.innerBytes = some payload)
    (hinner : ({ ingress with mem := blankedMem ingress } : IncomingPacket).innerBytes
      = some inner) :
    bptBytes inner = bptBytes payload ↔ ingress.muc = none ∧ ingress.mucUser = none := by
  constructor
  · intro hsame
    by_cases hname : ingress.name = .presence
    · cases hi : ingress.inner with
      | none => exact h.found_none_of_inner hi
      | some outer =>
        unfold IncomingPacket.innerBytes at hpayload hinner
        dsimp only at hinner
        rw [hi] at hpayload hinner
        obtain ⟨bytes, hb, rfl⟩ := Option.map_eq_some_iff.mp hpayload
        obtain ⟨bytes', hb', rfl⟩ := Option.map_eq_some_iff.mp hinner
        unfold Span.copy at hb hb'
        split at hb
        · cases hb
        · next hle =>
          rw [if_neg hle] at hb'
          cases hb
          cases hb'
          obtain ⟨hstart, hstop⟩ := h.headerLaid.2 outer hi
          obtain ⟨nodes, last, hf⟩ := h.nodesFound hname hi (Nat.not_lt.mp hle)
          -- a node that was found is blanks now, and is a node no longer
          have hlost : ∀ n ∈ nodes,
              ¬ (ingress.muc = some n.extent ∨ ingress.mucUser = some n.extent) := by
            intro n hn hfound
            obtain ⟨hdata, -, hlast⟩ := hf.laid.within n hn
            have hend : n.extent.stop ≤ outer.stop := Nat.le_trans hlast hf.laid.last_le
            have hblanks := hf.bytes_blankedMem hstop fun m hm =>
              (hf.laid.eq_or_apart hm hn).imp_left (congrArg XmlNodeTraverser.extent)
            rw [if_pos hfound, ← bytes_within hdata hend,
              show outer.bytes (blankedMem ingress) = outer.bytes ingress.mem from hsame,
              bytes_within hdata hend] at hblanks
            exact not_wholeNode_blanks _ (hblanks ▸ hf.laid.whole n hn)
          refine ⟨Option.eq_none_iff_forall_ne_some.mpr fun s hs => ?_,
            Option.eq_none_iff_forall_ne_some.mpr fun s hs => ?_⟩
          · obtain ⟨n, hn, -, rfl⟩ := hf.muc s hs
            exact hlost n hn (.inl hs)
          · obtain ⟨n, hn, -, rfl⟩ := hf.mucUser s hs
            exact hlost n hn (.inr hs)
    · exact h.found_none hname
  · rintro ⟨hmuc, huser⟩
    have hmem : blankedMem ingress = ingress.mem := by
      unfold blankedMem
      rw [hmuc, huser]
      rfl
    rw [hmem] at hinner
    exact congrArg bptBytes (Option.some.inj (hinner.symm.trans hpayload))

/-! ## When an error is mirrored -/

/-- What an error needs to be mirrored. -/
structure Supplied (node : Buffer) (attrs : List AttrText) (ingress : IncomingPacket) : Prop where
  /-- `worker_bounce` is given the node -/
  node : node.isSome = true
  /-- the stanza is for the room itself -/
  bare : ingress.proxyTo.resource = none
  unquoted : quote1 ∉ jidText ingress.proxyTo
  /-- there is nothing in the payload that the clean-up blanks -/
  plain : ingress.muc = none ∧ ingress.mucUser = none
  senderOnce : (valuesOf (lit "from") (pairsOf attrs)).length = 1
  recipientOnce : (valuesOf (lit "to") (pairsOf attrs)).length = 1
  typeOnce : (valuesOf (lit "type") (pairsOf attrs)).length ≤ 1

theorem dropLast_eq_nil_iff {values : List Bytes} {v : Bytes} (h : values.getLast? = some v) :
    values.dropLast = [] ↔ values.length = 1 := by
  rw [← List.length_eq_zero_iff, List.length_dropLast]
  cases values with
  | nil => cases h
  | cons x xs => simp

/-- A header that is answered begins with white space. -/
theorem StanzaRead.exists_front {mem : Bytes} {attrs : List AttrText} {ingress : IncomingPacket}
    (h : StanzaRead mem attrs ingress) (hne : attrs ≠ []) : ∃ c rest,
    piecesText (answeredHeader attrs) = c :: rest ∧ NameEnds c := by
  obtain ⟨a, more, c, lead, hattrs, hlead⟩ := h.exists_lead hne
  have hwhite : whitespace c = true := by
    refine (h.read.scannable a ?_).lead c ?_
    · rw [hattrs]
      exact List.mem_cons_self
    · rw [hlead]
      exact List.mem_cons_self
  have hsame := (replaces_answeredHeader attrs).attrs
  cases hpieces : answeredHeader attrs with
  | nil =>
    rw [hpieces] at hsame
    exact absurd hsame.symm hne
  | cons p ps =>
    rw [hpieces, List.map_cons, hattrs] at hsame
    have hattr : p.attr = a := (List.cons.inj hsame).1
    obtain ⟨rest, htext⟩ : ∃ rest, p.text = a.lead ++ rest := by
      rw [← hattr]
      cases p <;> exact ⟨_, rfl⟩
    exact ⟨c, lead ++ rest ++ piecesText ps, by rw [piecesText_cons, htext, hlead]; simp,
      nameEnds_of_white hwhite⟩

theorem valuesOf_errorAttrs {space address : Bytes} :
    valuesOf (lit "from") (pairsOf (errorAttrs space address)) = [address] ∧
      valuesOf (lit "to") (pairsOf (errorAttrs space address)) = [] ∧
      valuesOf (lit "type") (pairsOf (errorAttrs space address)) = [lit "error"] ∧
      valuesOf (lit "id") (pairsOf (errorAttrs space address)) = [] := by
  have hpairs : pairsOf (errorAttrs space address)
      = [(lit "from", address), (lit "type", lit "error")] := rfl
  rw [hpairs]
  refine ⟨?_, ?_, ?_, ?_⟩
  · rw [valuesOf_cons_self, valuesOf_cons_ne (by decide), valuesOf_nil]
  · rw [valuesOf_cons_ne (by decide), valuesOf_cons_ne (by decide), valuesOf_nil]
  · rw [valuesOf_cons_ne (by decide), valuesOf_cons_self, valuesOf_nil]
  · rw [valuesOf_cons_ne (by decide), valuesOf_cons_ne (by decide), valuesOf_nil]

/-- Both addresses of an accepted stanza are the last of their names. -/
theorem StanzaRead.addresses {mem : Bytes} {attrs : List AttrText} {ingress : IncomingPacket}
    (h : StanzaRead mem attrs ingress) (hacc : Accepted ingress) : attrs ≠ [] ∧
      (∃ sender, lastValue (lit "from") attrs = some sender) ∧
      lastValue (lit "to") attrs = some (jidText ingress.proxyTo) := by
  have hinit : ¬ ParsedJid jidInit := fun hp => absurd hp.sizes.1 (by decide)
  obtain ⟨a, ha, -⟩ := h.read.sender.resolve_left fun he => hinit (he ▸ hacc.parsed.1)
  obtain ⟨b, hb, hjid⟩ := h.read.recipient.resolve_left fun he => hinit (he ▸ hacc.parsed.2)
  refine ⟨List.ne_nil_of_mem ha.mem, ⟨_, ha.lastValue⟩, ?_⟩
  rw [hb.lastValue, text_of_struct hjid]

/-- **When a bounce is mirrored.** -/
theorem bounce_mirrored_iff {mem : Bytes} {attrs : List AttrText} {ingress : IncomingPacket}
    (h : StanzaRead mem attrs ingress) (hacc : Accepted ingress) {fromHost roomNode : Bytes}
    (hnode : ingress.proxyTo.node = some roomNode) (hhost : ingress.proxyTo.host = some fromHost)
    {error : XMPPError} {node : Buffer} {packet : BuilderPacket}
    (hb : workerBounce ingress error node = some packet)
    (hsame : ∀ x, node = some x → x = roomNode) :
    ∃ reply, builderBuild fromHost packet = some reply ∧
      (Mirrored attrs ingress error reply ↔ Supplied node attrs ingress) := by
  obtain ⟨inner, hinner, hbuilt⟩ := exists_reply fromHost hb
  have hdef : ingress.innerBytes.isSome = true := by
    rw [← @workerBounce_isSome ingress error node, hb]
    rfl
  obtain ⟨payload, hpayload⟩ := Option.isSome_iff_exists.mp hdef
  rw [hacc.innerBytes_cleaned hdef] at hinner
  have hkeeps := payload_kept_iff hacc hpayload hinner
  rw [h.answered hacc hdef] at hbuilt
  obtain ⟨hne, ⟨sender, hsender⟩, hrecipient⟩ := h.addresses hacc
  obtain ⟨kept, space, hheader, hkept, hspace, hvalues⟩ := h.exists_answered
  obtain ⟨c, front, hfront, hc⟩ := h.exists_front hne
  have hbody : ∀ address rest, ∃ d r,
      errorBody (piecesText (answeredHeader attrs)) address rest = d :: r ∧ NameEnds d := by
    intro address rest
    rw [hfront]
    exact ⟨c, _, rfl, hc⟩
  -- the address of the reply beside that of the stanza
  have haddress : jidText ingress.proxyTo = nodeHead (some roomNode) ++
      (fromHost ++ resourceTail ingress.proxyTo.resource) := by
    unfold jidText
    rw [hnode, hhost]
    rfl
  have hle : (nodeHead node ++ fromHost).length ≤ (jidText ingress.proxyTo).length := by
    rw [haddress]
    cases hn : node with
    | none =>
      simp only [nodeHead, List.nil_append, List.length_append]
      omega
    | some x =>
      rw [hsame x hn]
      simp only [List.length_append]
      omega
  refine ⟨_, hbuilt, ?_⟩
  obtain ⟨hefrom, heto, hetype, heid⟩ := @valuesOf_errorAttrs space (nodeHead node ++ fromHost)
  constructor
  -- what the reply mirrors is read off its attributes and its lengths
  · rintro ⟨answer, payload', hm⟩
    have hpay : payload = payload' := Option.some.inj (hpayload.symm.trans hm.inner)
    obtain ⟨hscan, htext⟩ := (stanzaText_iff h.named (hbody _ _)).mp hm.text
    have hwanted := hm.sender
    rw [hrecipient] at hwanted
    rw [hheader] at htext
    obtain ⟨heq, hquote, hnone, rfl, hrest⟩ :=
      sender_of_answer hkept hscan hspace hle htext hwanted
    have hto := hm.recipient
    have htype := hm.type
    rw [pairsOf_append, valuesOf_append, heto, List.append_nil, hsender] at hto
    rw [pairsOf_append, valuesOf_append, hetype] at htype
    refine ⟨?_, ?_, hquote, ?_, ?_, ?_, ?_⟩
    · cases hn : node with
      | some x => rfl
      | none =>
        -- the host alone is too short
        have hlen := congrArg List.length heq
        rw [hn, haddress] at hlen
        simp only [nodeHead, List.nil_append, List.length_append, List.length_singleton] at hlen
        omega
    · cases hr : ingress.proxyTo.resource with
      | none => rfl
      | some r =>
        have hlen := congrArg List.length heq
        rw [haddress, hr, resourceTail] at hlen
        cases hn : node with
        | none =>
          rw [hn] at hlen
          simp only [nodeHead, List.nil_append, List.length_append, List.length_cons] at hlen
          omega
        | some x =>
          rw [hn, hsame x hn] at hlen
          simp only [List.length_append, List.length_cons] at hlen
          omega
    · refine hkeeps.mp ?_
      rw [hpay]
      exact (List.append_cancel_right hrest).symm
    · exact (dropLast_eq_nil_iff hsender).mp (hvalues.sender.symm.trans hnone)
    · refine (dropLast_eq_nil_iff hrecipient).mp ?_
      have hlen := hvalues.recipient.length_eq
      rw [hto, hsender, List.length_append] at hlen
      refine List.length_eq_zero_iff.mp ?_
      omega
    · have hlen := congrArg List.length htype
      rw [hvalues.type, List.length_append, List.length_dropLast, List.length_singleton] at hlen
      omega
  -- and where these hold, it has those attributes
  · rintro ⟨hsome, hbare, hquote, hplain, hsenderOnce, hrecipientOnce, htypeOnce⟩
    obtain ⟨x, hx⟩ := Option.isSome_iff_exists.mp hsome
    have heq : nodeHead node ++ fromHost = jidText ingress.proxyTo := by
      rw [haddress, hx, hsame x hx, hbare, resourceTail, List.append_nil]
    have hnone := (dropLast_eq_nil_iff hsender).mpr hsenderOnce
    have hlost := (dropLast_eq_nil_iff hrecipient).mpr hrecipientOnce
    refine ⟨kept ++ errorAttrs space (nodeHead node ++ fromHost), payload, hpayload, ?_, ?_, ?_,
      ?_, ?_⟩
    · refine (stanzaText_iff h.named (hbody _ _)).mpr ⟨fun a ha => ?_, ?_⟩
      · refine (List.mem_append.mp ha).elim (hkept a) (errorAttrs_scannable hspace ?_ a)
        rw [heq]
        exact hquote
      · rw [hheader, errorBody_attrs, hkeeps.mpr hplain]
    · have hperm := hvalues.recipient
      rw [hlost, List.append_nil, hsender] at hperm
      rw [pairsOf_append, valuesOf_append, heto, List.append_nil, hsender]
      exact List.perm_singleton.mp hperm
    · rw [pairsOf_append, valuesOf_append, hefrom, hvalues.sender, hnone, hrecipient, heq]
      rfl
    · rw [pairsOf_append, valuesOf_append, hetype, hvalues.type]
      have hempty : (valuesOf (lit "type") (pairsOf attrs)).dropLast = [] := by
        refine List.length_eq_zero_iff.mp ?_
        rw [List.length_dropLast]
        omega
      rw [hempty]
      rfl
    · rw [pairsOf_append, valuesOf_append, heid, List.append_nil, hvalues.id]

/-- The node that `worker_bounce` is given is that of the stanza. -/
theorem bounceNode_eq {hash : HashsFind} {rooms : Rooms} {ingress : IncomingPacket} {node : Bytes}
    (h : bounceNode hash rooms ingress = some node) : node = roomKey ingress := by
  unfold bounceNode at h
  cases hfind : hash.find rooms.table.items (roomKey ingress) with
  | some i =>
    rw [hfind] at h
    obtain ⟨room, hroom, hkey⟩ := hash.found hfind
    dsimp only at h
    rw [hroom, Option.bind_some] at h
    rw [← hkey, h]
    rfl
  | none =>
    rw [hfind] at h
    dsimp only at h
    split at h
    · exact (Option.some.inj h).symm
    · cases h

/--
**An error of the table is mirrored if and only if it is supplied**: for every state of the table
and every accepted stanza to a room of the host, whatever it is refused for.
-/
theorem error_mirrored_iff (hash : HashsFind) {rooms rooms' : Rooms} {stanza : Stanza}
    {mem : Bytes} {attrs : List AttrText} (hparse : packetParse mem = some (some stanza.ingress))
    (hread : StanzaRead mem attrs stanza.ingress) {fromHost : Bytes}
    (hnode : stanza.ingress.proxyTo.node.isSome = true)
    (hhost : stanza.ingress.proxyTo.host = some fromHost) {sent : List BuilderPacket}
    (h : roomsProcess hash rooms stanza = some (rooms', sent)) {packet : BuilderPacket}
    (hp : packet ∈ sent) (herror : packet.type = stanzaError) :
    ∃ error reply, packet.sysData = .error error ∧ builderBuild fromHost packet = some reply ∧
      (Mirrored attrs stanza.ingress error reply ↔
        Supplied (bounceNode hash rooms stanza.ingress) attrs stanza.ingress) := by
  obtain ⟨error, hb⟩ := roomsProcess_bounced h hp herror
  obtain ⟨node, hnode⟩ := Option.isSome_iff_exists.mp hnode
  obtain ⟨reply, hreply, hiff⟩ := bounce_mirrored_iff hread ⟨mem, hparse⟩ hnode hhost hb (by
    intro x hx
    rw [bounceNode_eq hx, roomKey, hnode]
    rfl)
  refine ⟨error, reply, ?_, hreply, hiff⟩
  obtain ⟨inner, -, hpacket⟩ := Option.bind_eq_some_iff.mp hb
  rw [← Option.some.inj hpacket]

/-! ## A stranger's message -/

def eveAttrs : List AttrText :=
  [builtAttr (lit " ") "from" (lit "eve@h/pc"), builtAttr (lit " ") "to" (lit "room@conf"),
    builtAttr (lit " ") "type" (lit "groupchat")]

theorem eveAttrs_written : ∀ a ∈ eveAttrs, a.Written := by
  intro a ha
  simp only [eveAttrs, List.mem_cons, List.not_mem_nil, or_false] at ha
  rcases ha with rfl | rfl | rfl
  · exact builtAttr_written no_space (by decide) (by decide)
  · exact builtAttr_written no_space (by decide) (by decide)
  · exact builtAttr_written no_space (by decide) (by decide)

theorem eveAttrs_once : (eveAttrs.map AttrText.name).Nodup :=
  (by decide : [lit "from", lit "to", lit "type"].Nodup)

/-- A message to everybody in the room from somebody who is not there. -/
def eveMessage : WrittenMessage where
  attrs := eveAttrs
  written := eveAttrs_written
  once := eveAttrs_once
  space := []
  white := no_space
  content := some (lit "<body>hi</body>")

/-- What becomes of it in a table of rooms. -/
def eveSays (rooms : Rooms) : Option (Stanza × Rooms × List BuilderPacket) := do
  let ingress ← (packetParse eveMessage.text).join
  let stanza : Stanza := { ingress := ingress, acl := openAcl, decisecondsLimit := 0, ticks := 0 }
  let (rooms', sent) ← roomsProcess firstFind rooms stanza
  return (stanza, rooms', sent)

theorem eveSays_spec {rooms rooms' : Rooms} {stanza : Stanza} {sent : List BuilderPacket}
    (h : eveSays rooms = some (stanza, rooms', sent)) :
    packetParse eveMessage.text = some (some stanza.ingress) ∧
      roomsProcess firstFind rooms stanza = some (rooms', sent) := by
  unfold eveSays at h
  obtain ⟨ingress, hi, h⟩ := Option.bind_eq_some_iff.mp h
  obtain ⟨⟨rooms₁, sent₁⟩, hr, h⟩ := Option.bind_eq_some_iff.mp h
  cases h
  exact ⟨Option.join_eq_some_iff.mp hi, hr⟩

/-- What she gets where there is no room. -/
def eveReceives : Bytes :=
  lit "<message   to='eve@h/pc'" ++ List.replicate 32 (ch ' ') ++
    lit " from='conf' type='error'><body>hi</body>" ++ buildError errorRoomNotFound ++
    lit "</message>"

/-- What she gets from a room. -/
def eveReceivesThere : Bytes :=
  lit "<message   to='eve@h/pc'" ++ List.replicate 32 (ch ' ') ++
    lit " from='room@conf' type='error'><body>hi</body>" ++ buildError errorExternalMessage ++
    lit "</message>"

/-- Where she sends it. -/
def roomAddress : Jid where
  node := some (lit "room")
  host := some (lit "conf")
  resource := none

/-- Where her message goes, the node that is known there, and the answer to it. -/
def eveIsTold (rooms : Rooms) (node : Buffer) (text : Bytes) : Bool :=
  (eveSays rooms).any (fun (stanza, _, sent) =>
    stanza.ingress.proxyTo == roomAddress && stanza.ingress.muc == none &&
    stanza.ingress.mucUser == none && bounceNode firstFind rooms stanza.ingress == node &&
    sent.length == 1 && sent.all (fun packet => packet.type == stanzaError &&
      builderBuild (lit "conf") packet == some text))

theorem eveIsTold_spec {rooms : Rooms} {node : Buffer} {text : Bytes}
    (h : eveIsTold rooms node text = true) :
    ∃ stanza rooms' packet, packetParse eveMessage.text = some (some stanza.ingress) ∧
      StanzaRead eveMessage.text eveMessage.attrs stanza.ingress ∧
      stanza.ingress.proxyTo = roomAddress ∧
      (stanza.ingress.muc = none ∧ stanza.ingress.mucUser = none) ∧
      bounceNode firstFind rooms stanza.ingress = node ∧
      roomsProcess firstFind rooms stanza = some (rooms', [packet]) ∧
      packet.type = stanzaError ∧ builderBuild (lit "conf") packet = some text := by
  obtain ⟨⟨stanza, rooms', sent⟩, hsays, hfacts⟩ := (Option.any_eq_true _ _).mp h
  simp only [Bool.and_eq_true, beq_iff_eq, List.length_eq_one_iff] at hfacts
  obtain ⟨⟨⟨⟨⟨hto, hmuc⟩, huser⟩, hnode⟩, packet, rfl⟩, hall⟩ := hfacts
  obtain ⟨hparse, hr⟩ := eveSays_spec hsays
  simp only [List.all_cons, List.all_nil, Bool.and_true, Bool.and_eq_true, beq_iff_eq] at hall
  exact ⟨stanza, rooms', packet, hparse, (eveMessage.read hparse).1, hto, ⟨hmuc, huser⟩, hnode, hr,
    hall⟩

set_option maxRecDepth 100000 in
/-- The error about a missing room comes from the host. -/
theorem missing_room_not_mirrored : ∃ stanza rooms' packet error,
    packetParse eveMessage.text = some (some stanza.ingress) ∧
      StanzaRead eveMessage.text eveMessage.attrs stanza.ingress ∧
      roomsProcess firstFind roomsInit stanza = some (rooms', [packet]) ∧
      packet.sysData = .error error ∧ builderBuild (lit "conf") packet = some eveReceives ∧
      ¬ Mirrored eveMessage.attrs stanza.ingress error eveReceives := by
  obtain ⟨stanza, rooms', packet, hparse, hread, hto, -, hnone, hr, htype, hbuilt⟩ :=
    eveIsTold_spec (show eveIsTold roomsInit none eveReceives = true by decide +kernel)
  obtain ⟨error, hb⟩ := roomsProcess_bounced hr List.mem_cons_self htype
  have hsys : packet.sysData = .error error := by
    obtain ⟨inner, -, hpacket⟩ := Option.bind_eq_some_iff.mp hb
    rw [← Option.some.inj hpacket]
  obtain ⟨reply, hreply, hiff⟩ := bounce_mirrored_iff hread ⟨_, hparse⟩
    (congrArg Jid.node hto) (congrArg Jid.host hto) hb (by rw [hnone]; rintro x ⟨⟩)
  rw [hbuilt, Option.some.injEq] at hreply
  rw [← hreply, hnone] at hiff
  refine ⟨stanza, rooms', packet, error, hparse, hread, hr, hsys, hbuilt, fun hm => ?_⟩
  cases (hiff.mp hm).node

set_option maxRecDepth 100000 in
/-- The result for the same message where alice has opened the room. -/
theorem error_mirrored_iff_opened : ∃ rooms stanza rooms' packet error,
    openedRooms = some rooms ∧ roomsProcess firstFind rooms stanza = some (rooms', [packet]) ∧
      packet.sysData = .error error ∧
      builderBuild (lit "conf") packet = some eveReceivesThere ∧
      Mirrored eveMessage.attrs stanza.ingress error eveReceivesThere := by
  have htold : openedRooms.any (fun rooms =>
      eveIsTold rooms (some (lit "room")) eveReceivesThere) = true := by decide +kernel
  obtain ⟨rooms, hrooms, htold⟩ := (Option.any_eq_true _ _).mp htold
  obtain ⟨stanza, rooms', packet, hparse, hread, hto, hplain, hnode, hr, htype, hbuilt⟩ :=
    eveIsTold_spec htold
  obtain ⟨error, reply, hsys, hreply, hiff⟩ := error_mirrored_iff firstFind hparse hread
    (by rw [hto]; rfl) (congrArg Jid.host hto) hr List.mem_cons_self htype
  rw [hbuilt, Option.some.injEq] at hreply
  rw [← hreply] at hiff
  refine ⟨rooms, stanza, rooms', packet, error, hrooms, hr, hsys, hbuilt, hiff.mpr ?_⟩
  rw [hnode]
  exact ⟨rfl, congrArg Jid.resource hto, by rw [hto]; decide, hplain, by decide, by decide,
    by decide⟩

end Mukite
