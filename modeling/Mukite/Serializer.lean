import Mukite.Room.State
import Mukite.Lib.Codec

/-!
# The data file

`src/serializer.h`, `buffer_serialize` and `buffer_deserialize` of `xmcomp/src/buffer.c`, the
container macros of `src/utss.h`, and the functions that write and read a room. A reader that
returns `FALSE` fails. Values are written as they lie in memory: an `int` is 4 bytes, a pointer
and a `time_t` 8, least significant byte first.
-/

namespace Mukite

open Codec

/-- What reads from the data file. -/
abbrev Input (α : Type) := Codec.Reader UInt8 α

/-! ## Base values -/

/-- `SERIALIZE_BASE` of an `int`. -/
def intSerialize (v : Int) : Bytes := intBytes 4 v

/-- `DESERIALIZE_BASE` of an `int`. -/
def intDeserialize : Input Int := (fun bs => intValue 4 bs) <$> takeN 4

/-- `SERIALIZE_BASE` of a `time_t`. -/
def timeSerialize (v : Int) : Bytes := intBytes 8 v

/-- `DESERIALIZE_BASE` of a `time_t`. -/
def timeDeserialize : Input Int := (fun bs => intValue 8 bs) <$> takeN 8

/-- `SERIALIZE_BASE` of a presence mark, the pointer 1 or 0. -/
def markSerialize (presenceMark : Bool) : Bytes := intBytes 8 (if presenceMark then 1 else 0)

/-- `DESERIALIZE_BASE` of a presence mark. -/
def markDeserialize : Input Bool := (fun bs => intValue 8 bs != 0) <$> takeN 8

def flagsSerialize (flags : MucFlags) : Bytes := leBytes 4 flags.toNat

def flagsDeserialize : Input MucFlags := (fun bs => BitVec.ofNat 32 (leValue bs)) <$> takeN 4

/-- `DESERIALIZE_BASE(room->_unused)`. -/
def unusedDeserialize : Input UnusedBytes := fun input =>
  if h : 48 ≤ input.length then
    some (⟨input.take 48, by rw [List.length_take, Nat.min_eq_left h]⟩, input.drop 48)
  else none

/-! ## Buffers and JIDs -/

/-- `buffer_serialize`, `buffer_ptr_serialize`. -/
def bufferSerialize (buffer : Buffer) : Bytes := intSerialize (bptSize buffer) ++ bptBytes buffer

/-- `buffer_deserialize`, `buffer_ptr_deserialize`. -/
def bufferDeserialize (limit : Nat) : Input Buffer := do
  let size ← intDeserialize
  if size < 0 ∨ (limit : Int) < size then fail
  else if size = 0 then return none
  else return some (← takeN size.toNat)

/-- `jid_serialize`. -/
def jidSerialize (jid : Jid) : Bytes := bufferSerialize (some (jidStr jid))

/-- `jid_deserialize`. -/
def jidDeserialize : Input Jid := do
  let buffer ← bufferDeserialize maxJidSize
  match jidStruct (bptBytes buffer) with
  | none => fail
  | some jid => return jid

/-! ## Containers -/

/-- The loop of `_CONTAINER_SERIALIZE`, with `serialized` items written so far. -/
def containerItems {α : Type} (entrySerializer : α → Bytes) (maxSize : Int) :
    Int → List α → Bytes
  | _, [] => []
  | serialized, x :: rest =>
    if serialized + 1 > maxSize then []
    else
      markSerialize true ++ (entrySerializer x ++
        containerItems entrySerializer maxSize (serialized + 1) rest)

/-- `_CONTAINER_SERIALIZE`. -/
def containerSerialize {α : Type} (entrySerializer : α → Bytes) (maxSize : Int)
    (items : List α) : Bytes :=
  containerItems entrySerializer maxSize 0 items ++ markSerialize false

/--
The loop of `_CONTAINER_DESERIALIZE`. `DLS_APPEND` counts every item once more, so the size
grows by two in each turn; `limit` is `max_size*2`. The first argument only bounds the recursion.
-/
def containerLoop {α : Type} (entryDeserializer : Input α) (limit : Int) :
    Nat → Int → List α → Input (List α × Int)
  | 0, _, _ => fail
  | n + 1, size, items =>
    if size + 1 > limit then fail
    else do
      let x ← entryDeserializer
      let presenceMark ← markDeserialize
      if presenceMark then containerLoop entryDeserializer limit n (size + 2) (items ++ [x])
      else return (items ++ [x], size + 2)

/-- The bound on the recursion does not show: the limit ends the loop first. -/
theorem containerLoop_fuel {α : Type} {entryDeserializer : Input α} {limit : Int} :
    ∀ (n m : Nat) (size : Int) (items : List α), limit < size + n → limit < size + m →
      containerLoop entryDeserializer limit n size items
        = containerLoop entryDeserializer limit m size items
  | 0, 0, _, _, _, _ => rfl
  | 0, m + 1, size, items, hn, _ => by
    rw [containerLoop, containerLoop, if_pos (by omega)]
  | n + 1, 0, size, items, _, hm => by
    rw [containerLoop, containerLoop, if_pos (by omega)]
  | n + 1, m + 1, size, items, hn, hm => by
    have ih := fun x => @containerLoop_fuel α entryDeserializer limit n m (size + 2)
      (items ++ [x]) (by omega) (by omega)
    simp only [containerLoop, ih]

/-- `_CONTAINER_DESERIALIZE`. `max_size*2` is an `int`. -/
def containerDeserialize {α : Type} (entryDeserializer : Input α) (container : Dls α) :
    Input (Dls α) := do
  if ← markDeserialize then
    let limit := cInt (container.maxSize * 2)
    let (items, size) ← containerLoop entryDeserializer limit (limit.toNat + 1) 0 []
    return { container with items := items, size := size }
  else return container

/-! ## Entries -/

/-- `history_entry_serialize`. -/
def historyEntrySerialize (entry : HistoryEntry) : Bytes :=
  [bufferSerialize entry.nick, bufferSerialize entry.header, bufferSerialize entry.inner,
    timeSerialize entry.delay].flatten

/-- `history_entry_deserialize`. -/
def historyEntryDeserialize : Input HistoryEntry := do
  let nick ← bufferDeserialize maxJidPartSize
  let header ← bufferDeserialize maxHistoryHeaderSize
  let inner ← bufferDeserialize maxHistoryInnerSize
  let delay ← timeDeserialize
  return { nick := nick, header := header, inner := inner, delay := delay }

/-- `participant_serialize`. -/
def participantSerialize (participant : Participant) : Bytes :=
  [jidSerialize participant.jid, bufferSerialize participant.nick,
    bufferSerialize participant.presence, intSerialize participant.affiliation,
    intSerialize participant.role].flatten

/-- `participant_deserialize` of a zeroed participant. -/
def participantDeserialize : Input Participant := do
  let jid ← jidDeserialize
  let nick ← bufferDeserialize maxJidPartSize
  let presence ← bufferDeserialize maxPresenceSize
  let affiliation ← intDeserialize
  let role ← intDeserialize
  return { jid := jid, nick := nick, affiliation := affiliation, role := role,
           presence := presence, lastMessageTime := 0,
           affectedList := { included := false, reasonNode := none } }

/-- `affiliation_serialize`. -/
def affiliationSerialize (affiliation : Affiliation) : Bytes :=
  [jidSerialize affiliation.jid, bufferSerialize affiliation.reasonNode].flatten

/-- `affiliation_deserialize`. -/
def affiliationDeserialize : Input Affiliation := do
  let jid ← jidDeserialize
  let reasonNode ← bufferDeserialize maxAffiliationReasonSize
  return { jid := jid, reasonNode := reasonNode }

/-- `affiliations_serialize`. -/
def affiliationsSerialize (affiliations : AffiliationsList) : Bytes :=
  containerSerialize affiliationSerialize affiliations.maxSize affiliations.items

/-- `affiliations_deserialize`. -/
def affiliationsDeserialize (affiliations : AffiliationsList) : Input AffiliationsList :=
  containerDeserialize affiliationDeserialize affiliations

/-! ## Rooms -/

/-- `room_serialize`. -/
def roomSerialize (room : Room) : Bytes :=
  [bufferSerialize room.node, bufferSerialize room.title, bufferSerialize room.description,
    bufferSerialize room.password, bufferSerialize room.subject.node,
    bufferSerialize room.subject.nick, flagsSerialize room.flags,
    intSerialize room.defaultRole, intSerialize room.participants.maxSize,
    intSerialize room.history.maxSize, room.unused.val,
    containerSerialize historyEntrySerialize room.history.maxSize room.history.items,
    containerSerialize participantSerialize room.participants.maxSize
      room.participants.nodes.vals,
    affiliationsSerialize (room.affiliations listOwner),
    affiliationsSerialize (room.affiliations listAdmin),
    affiliationsSerialize (room.affiliations listMember),
    affiliationsSerialize (room.affiliations listOutcast)].flatten

/-- The limit that `room_deserialize` gives to every affiliation list. -/
def loadedAffiliationsLimit : Int := 10240

/-- The affiliation lists of a loaded room. Nothing is read into the list `AFFIL_NONE`. -/
def loadedAffiliations (owner admin member outcast : AffiliationsList) : Affiliations := fun a =>
  if a = listOwner then owner
  else if a = listAdmin then admin
  else if a = listMember then member
  else if a = listOutcast then outcast
  else .init loadedAffiliationsLimit

/-- `room_deserialize` of a zeroed room. -/
def roomDeserialize : Input Room := do
  let node ← bufferDeserialize maxJidPartSize
  let title ← bufferDeserialize userStringOptionLimit
  let description ← bufferDeserialize userStringOptionLimit
  let password ← bufferDeserialize userStringOptionLimit
  let subjectNode ← bufferDeserialize userStringOptionLimit
  let subjectNick ← bufferDeserialize userStringOptionLimit
  let flags ← flagsDeserialize
  let defaultRole ← intDeserialize
  let participantsMaxSize ← intDeserialize
  let historyMaxSize ← intDeserialize
  let unused ← unusedDeserialize
  let history ← containerDeserialize historyEntryDeserialize (.init historyMaxSize)
  let participants ← containerDeserialize participantDeserialize (.init participantsMaxSize)
  let owner ← affiliationsDeserialize (.init loadedAffiliationsLimit)
  let admin ← affiliationsDeserialize (.init loadedAffiliationsLimit)
  let member ← affiliationsDeserialize (.init loadedAffiliationsLimit)
  let outcast ← affiliationsDeserialize (.init loadedAffiliationsLimit)
  return { node := node, title := title, description := description, password := password,
           flags := flags, defaultRole := defaultRole, unused := unused,
           participants := { nodes := .ofList participants.items, size := participants.size,
                             maxSize := participants.maxSize },
           affiliations := loadedAffiliations owner admin member outcast, history := history,
           subject := { node := subjectNode, nick := subjectNick } }

end Mukite
