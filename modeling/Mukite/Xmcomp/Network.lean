import Mukite.Stdio
import Mukite.Xmcomp.Sha1

/-!
# The connection to the server

`xmcomp/src/network.c`: the stream is opened, and the component authenticates itself with a digest
of a secret. `send` takes any part of what it is offered and `recv` brings any part of what is on
its way; either may fail. Strings are given without their terminators.
-/

namespace Mukite

/-- What `recv` does. -/
inductive RecvResult
  | failed
  /-- `EINTR` -/
  | interrupted
  /-- no bytes when the other side has closed the connection -/
  | bytes (data : Bytes)

/-- `Socket`, with what the next calls are going to do and what has gone over it. -/
structure Socket where
  connected : Bool
  /-- how many bytes `send` would take, `none` for an error -/
  sends : List (Option Nat)
  recvs : List RecvResult
  sent : Bytes
  received : List Bytes

/-! ## Sending and receiving

A call has a result and leaves a socket behind. `none` is for a call that never returns, and for one
that does something undefined.
-/

/-- The loop of `net_send_all`: its result, what `send` will do next, and what it has taken. -/
def sendLoop : List (Option Nat) → Bytes → Option (Bool × List (Option Nat) × Bytes)
  | sends, [] => some (true, sends, [])
  | [], _ :: _ => none
  | none :: sends, _ :: _ => some (false, sends, [])
  | some n :: sends, octet :: octets =>
    (sendLoop sends ((octet :: octets).drop n)).map
      (fun r => (r.1, r.2.1, (octet :: octets).take n ++ r.2.2))

/-- `net_send_all`. -/
def netSendAll (socket : Socket) (data : Bytes) : Option (Bool × Socket) :=
  if !socket.connected then some (false, socket)
  else
    (sendLoop socket.sends data).map (fun r =>
      (r.1, { socket with sends := r.2.1, sent := socket.sent ++ r.2.2 }))

/-- `net_recv`, with the bytes that are in the buffer then; `none` for -1. -/
def netRecv (socket : Socket) (size : Nat) : Option (Option Bytes × Socket) :=
  if !socket.connected then some (some [], socket)
  else
    match socket.recvs with
    | [] => none
    | .failed :: recvs => some (none, { socket with recvs := recvs })
    | .interrupted :: recvs => some (some [], { socket with recvs := recvs })
    | .bytes data :: recvs =>
      let received := data.take size
      let recvs := if size < data.length then .bytes (data.drop size) :: recvs else recvs
      some (some received, { socket with
        connected := !received.isEmpty
        recvs := recvs
        received := socket.received ++ [received] })

/-! ## Strings -/

/-- `strstr`: what begins with the first occurrence. -/
def strstr (needle : Bytes) : Bytes → Option Bytes
  | [] => none
  | octet :: octets =>
    if needle.isPrefixOf (octet :: octets) then some (octet :: octets) else strstr needle octets

def hexDigit (n : Nat) : UInt8 := (lit "0123456789abcdef").getD n 0

/-- `%08x` of an `unsigned`. -/
def hexWord (word : Word) : Bytes :=
  (List.range 8).map (fun i => hexDigit (word.toNat / 16 ^ (7 - i) % 16))

/-- `STANDARD_BUFFER_SIZE`. -/
def standardBufferSize : Nat := 1024

/-! ## The handshake -/

/-- What `authorize` sends for a context. -/
def handshakeText (sha : SHA1Context) : Bytes :=
  lit "<handshake>" ++ (hexWord sha.messageDigest.a ++ hexWord sha.messageDigest.b ++
    hexWord sha.messageDigest.c ++ hexWord sha.messageDigest.d ++ hexWord sha.messageDigest.e) ++
    lit "</handshake>"

/-- `HANDSHAKE_SUCCESS`. -/
def handshakeSuccess : Bytes := lit "<handshake/>"

/-- The end of `authorize`: the handshake is sent, and the server acknowledges it. -/
def exchangeHandshake (socket : Socket) (text : Bytes) : Option (Bool × Socket) := do
  let (complete, socket) ← netSendAll socket text
  if !complete then return (false, socket)
  let (received, socket) ← netRecv socket (standardBufferSize - 1)
  match received with
  | none => return (false, socket)
  | some received => return (!received.isEmpty && cString received == handshakeSuccess, socket)

/-- `authorize`. What is in `sha` before is left open, as nobody has set it. -/
def authorize (sha : SHA1Context) (socket : Socket) (id pass : Bytes) : Option (Bool × Socket) :=
  if !socket.connected then some (false, socket)
  -- `strncpy` does not write a terminator behind a string that fills the buffer
  else if standardBufferSize ≤ id.length then none
  else
    let buffer := id ++ pass.take (standardBufferSize - id.length - 1)
    let (sha, computed) := sha1Result (sha1Input (sha1Reset sha) buffer)
    if !computed then some (false, socket) else exchangeHandshake socket (handshakeText sha)

/-- The `id` attribute, as `net_stream` looks for it. -/
def streamId (buffer : Bytes) : Option Bytes := do
  let idStart ← strstr (lit "id=") (cString buffer)
  match idStart.drop 3 with
  | [] => none
  | quote :: idStart =>
    let idEnd ← strstr [quote] idStart
    return idStart.take (idStart.length - idEnd.length)

/-- The opening tag that `net_stream` sends. -/
def streamOpening (source target : Bytes) : Bytes :=
  lit "<?xml version='1.0'?> <stream:stream xmlns:stream='http://etherx.jabber.org/streams' " ++
    lit "xmlns='jabber:component:accept' to='" ++ target ++ lit "' from='" ++ source ++ lit "'>"

/-- The end of `net_stream`, with the greeting of the server. -/
def greeted (sha : SHA1Context) (socket : Socket) (pass greeting : Bytes) :
    Option (Bool × Socket) :=
  match streamId greeting with
  | none => some (false, socket)
  | some id => authorize sha socket id pass

/-- `net_stream`. -/
def netStream (sha : SHA1Context) (socket : Socket) (source target pass : Bytes) :
    Option (Bool × Socket) :=
  if !socket.connected then some (false, socket)
  -- `sprintf` writes past the end of the buffer
  else if standardBufferSize ≤ (streamOpening source target).length then none
  else do
    let (complete, socket) ← netSendAll socket (streamOpening source target)
    if !complete then return (false, socket)
    let (received, socket) ← netRecv socket (standardBufferSize - 1)
    match received with
    | none => return (false, socket)
    | some received => greeted sha socket pass received

end Mukite
