import Mukite.Buffer

/-!
# SHA-1

`xmcomp/sha1/sha1.c`, with which the component authenticates itself. A context takes a message in
pieces. It keeps the octets of the block that is not complete yet, in front of what earlier blocks
have left in the array.
-/

namespace Mukite

/-- `unsigned`. -/
abbrev Word := BitVec 32

/-- `SHA1CircularShift`. -/
def sha1CircularShift (bits : Nat) (word : Word) : Word :=
  ((word <<< bits) &&& 0xFFFFFFFF#32) ||| (word >>> (32 - bits))

/-- `Message_Digest`, and the word buffers `A` to `E`. -/
structure SHA1Words where
  a : Word
  b : Word
  c : Word
  d : Word
  e : Word
deriving DecidableEq, Repr

/-- `Message_Block`. -/
abbrev MessageBlock := { block : Bytes // block.length = 64 }

structure SHA1Context where
  messageDigest : SHA1Words
  lengthLow : Word
  lengthHigh : Word
  messageBlock : MessageBlock
  messageBlockIndex : Nat
  computed : Bool
  corrupted : Bool

/-- The digest of `SHA1Reset`. -/
def sha1Start : SHA1Words where
  a := 0x67452301#32
  b := 0xEFCDAB89#32
  c := 0x98BADCFE#32
  d := 0x10325476#32
  e := 0xC3D2E1F0#32

/-- `SHA1Reset`. The message block keeps what is in it. -/
def sha1Reset (context : SHA1Context) : SHA1Context where
  messageDigest := sha1Start
  lengthLow := 0
  lengthHigh := 0
  messageBlock := context.messageBlock
  messageBlockIndex := 0
  computed := false
  corrupted := false

/-! ## `SHA1ProcessMessageBlock` -/

/-- Four octets of a block, the first `unsigned`s of the array `W`. -/
def blockWord (block : Bytes) (t : Nat) : Word :=
  let octet (i : Nat) : Word := (block.getD i 0).toBitVec.setWidth 32
  octet (t * 4) <<< 24 ||| octet (t * 4 + 1) <<< 16 ||| octet (t * 4 + 2) <<< 8 |||
    octet (t * 4 + 3)

/-- The array `W`. -/
def wordSequence (block : Bytes) : List Word :=
  (List.range' 16 64).foldl
    (fun w t => w ++ [sha1CircularShift 1
      (w.getD (t - 3) 0 ^^^ w.getD (t - 8) 0 ^^^ w.getD (t - 14) 0 ^^^ w.getD (t - 16) 0)])
    ((List.range 16).map (blockWord block))

/-- One turn of the four loops, which differ in a function and a constant. -/
def sha1Round (f : Word → Word → Word → Word) (k : Word) (w : List Word) (r : SHA1Words)
    (t : Nat) : SHA1Words :=
  let temp := sha1CircularShift 5 r.a + f r.b r.c r.d + r.e + w.getD t 0 + k
  { a := temp &&& 0xFFFFFFFF#32
    b := r.a
    c := sha1CircularShift 30 r.b
    d := r.c
    e := r.d }

/-- The digest after one more block. -/
def sha1ProcessBlock (digest : SHA1Words) (block : Bytes) : SHA1Words :=
  let w := wordSequence block
  let r := (List.range 20).foldl
    (sha1Round (fun b c d => (b &&& c) ||| (~~~b &&& d)) 0x5A827999#32 w) digest
  let r := (List.range' 20 20).foldl (sha1Round (fun b c d => b ^^^ c ^^^ d) 0x6ED9EBA1#32 w) r
  let r := (List.range' 40 20).foldl
    (sha1Round (fun b c d => (b &&& c) ||| (b &&& d) ||| (c &&& d)) 0x8F1BBCDC#32 w) r
  let r := (List.range' 60 20).foldl (sha1Round (fun b c d => b ^^^ c ^^^ d) 0xCA62C1D6#32 w) r
  { a := (digest.a + r.a) &&& 0xFFFFFFFF#32
    b := (digest.b + r.b) &&& 0xFFFFFFFF#32
    c := (digest.c + r.c) &&& 0xFFFFFFFF#32
    d := (digest.d + r.d) &&& 0xFFFFFFFF#32
    e := (digest.e + r.e) &&& 0xFFFFFFFF#32 }

/-- `SHA1ProcessMessageBlock`. -/
def sha1ProcessMessageBlock (context : SHA1Context) : SHA1Context :=
  { context with
    messageDigest := sha1ProcessBlock context.messageDigest context.messageBlock.1
    messageBlockIndex := 0 }

/-! ## `SHA1Input` -/

/-- `Message_Block[Message_Block_Index++] = octet`. -/
def storeOctet (context : SHA1Context) (octet : UInt8) : SHA1Context :=
  { context with
    messageBlock :=
      ⟨context.messageBlock.1.set context.messageBlockIndex octet,
        (List.length_set ..).trans context.messageBlock.2⟩
    messageBlockIndex := context.messageBlockIndex + 1 }

/-- The 64 bit counter of the bits that have been read. -/
def countOctet (context : SHA1Context) : SHA1Context :=
  let context := { context with lengthLow := context.lengthLow + 8#32 }
  if context.lengthLow = 0#32 then
    let context := { context with lengthHigh := context.lengthHigh + 1#32 }
    -- Message is too long
    if context.lengthHigh = 0#32 then { context with corrupted := true } else context
  else context

/-- One turn of the loop. -/
def inputOctet (context : SHA1Context) (octet : UInt8) : SHA1Context :=
  let context := countOctet (storeOctet context octet)
  if context.messageBlockIndex = 64 then sha1ProcessMessageBlock context else context

/-- The loop of `SHA1Input`. -/
def inputLoop : SHA1Context → Bytes → SHA1Context
  | context, [] => context
  | context, octet :: message =>
    if context.corrupted then context else inputLoop (inputOctet context octet) message

/-- `SHA1Input`. -/
def sha1Input (context : SHA1Context) (message : Bytes) : SHA1Context :=
  if message.isEmpty then context
  else if context.computed || context.corrupted then { context with corrupted := true }
  else inputLoop context message

/-! ## `SHA1Result` -/

/-- `while (Message_Block_Index < upTo) Message_Block[Message_Block_Index++] = 0`. -/
def zeroFill (upTo : Nat) (context : SHA1Context) : SHA1Context :=
  (List.replicate (upTo - context.messageBlockIndex) 0).foldl storeOctet context

/-- The octets of a word. -/
def wordOctets (word : Word) : Bytes :=
  [24, 16, 8, 0].map (fun shift => UInt8.ofBitVec ((word >>> shift &&& 0xFF#32).setWidth 8))

/-- Store the message length as the last 8 octets. -/
def storeLength (context : SHA1Context) : SHA1Context :=
  { context with
    messageBlock :=
      ⟨(context.messageBlock.1.take 56 ++ wordOctets context.lengthHigh ++
          wordOctets context.lengthLow), by
        have h := context.messageBlock.2
        simp [wordOctets, h]⟩ }

/-- `SHA1PadMessage`. -/
def sha1PadMessage (context : SHA1Context) : SHA1Context :=
  let padded :=
    if context.messageBlockIndex > 55 then
      zeroFill 56 (sha1ProcessMessageBlock (zeroFill 64 (storeOctet context 0x80)))
    else zeroFill 56 (storeOctet context 0x80)
  sha1ProcessMessageBlock (storeLength padded)

/-- `SHA1Result`. -/
def sha1Result (context : SHA1Context) : SHA1Context × Bool :=
  if context.corrupted then (context, false)
  else if context.computed then (context, true)
  else ({ sha1PadMessage context with computed := true }, true)

/-! ## Whatever is called -/

inductive Sha1Call where
  | reset
  | input (message : Bytes)
  | result
deriving Repr

/-- A call, and the digest when there is one to read. -/
def sha1Step (context : SHA1Context) : Sha1Call → Option (SHA1Context × Option SHA1Words)
  | .reset => some (sha1Reset context, none)
  | .input message => some (sha1Input context message, none)
  | .result =>
    let (context, computed) := sha1Result context
    some (context, if computed then some context.messageDigest else none)

end Mukite
