import Mathlib.Data.List.Basic
import Mukite.Xmcomp.Sha1
import Mukite.Lib.Blocks
import Mukite.Lib.Simulation

/-!
# The digest of a message

What SHA-1 is, said of a whole message (`sha1`): the message is padded to whole blocks, and the
blocks change the digest one after the other. The program never has the whole message. It keeps the
beginning of a block, counts the bits in two words, and refuses a message whose count does not fit.

* **`sha1_calls`**: whatever is called on a context after `SHA1Reset`, every `SHA1Result` is what
  it has to be of the message that has been put in.
-/

namespace Mukite

open Blocks Machine

/-! ## SHA-1 of a whole message -/

/-- The words of a block, expanded. -/
def expandedWord (block : Bytes) (t : Nat) : Word :=
  if t < 16 then blockWord block t
  else (expandedWord block (t - 3) ^^^ expandedWord block (t - 8) ^^^ expandedWord block (t - 14) ^^^
    expandedWord block (t - 16)).rotateLeft 1
termination_by t

/-- The function of the words `b`, `c` and `d` in round `t`: choice, parity or majority. -/
def roundFunction (t : Nat) (b c d : Word) : Word :=
  if t < 20 then (b &&& c) ^^^ (~~~b &&& d)
  else if 40 ≤ t ∧ t < 60 then (b &&& c) ^^^ (b &&& d) ^^^ (c &&& d)
  else b ^^^ c ^^^ d

def roundConstant (t : Nat) : Word :=
  if t < 20 then 0x5A827999#32
  else if t < 40 then 0x6ED9EBA1#32
  else if t < 60 then 0x8F1BBCDC#32
  else 0xCA62C1D6#32

/-- Round `t` for a block. -/
def roundOf (block : Bytes) (r : SHA1Words) (t : Nat) : SHA1Words where
  a := r.a.rotateLeft 5 + roundFunction t r.b r.c r.d + r.e + expandedWord block t + roundConstant t
  b := r.a
  c := r.b.rotateLeft 30
  d := r.c
  e := r.d

/-- A digest and a block make the next digest. -/
def compress (digest : SHA1Words) (block : Bytes) : SHA1Words :=
  let r := (List.range 80).foldl (roundOf block) digest
  { a := digest.a + r.a
    b := digest.b + r.b
    c := digest.c + r.c
    d := digest.d + r.d
    e := digest.e + r.e }

/-- A number as eight octets, the highest first. -/
def octets64 (n : Nat) : Bytes :=
  (List.range 8).map (fun i => UInt8.ofNat (n / 2 ^ (8 * (7 - i))))

/-- What fills a message of the given length up to whole blocks: a bit, zeros, and the length. -/
def padding (length : Nat) : Bytes :=
  0x80 :: (List.replicate ((119 - length % 64) % 64) 0 ++ octets64 (8 * length))

/-- SHA-1. -/
def sha1 (message : Bytes) : SHA1Words :=
  (blocks 64 (message ++ padding message.length)).foldl compress sha1Start

/-! ## One block -/

theorem and_ones (word : Word) : word &&& 0xFFFFFFFF#32 = word := by
  have hones : 0xFFFFFFFF#32 = BitVec.allOnes 32 := by decide
  rw [hones, BitVec.and_allOnes]

theorem sha1CircularShift_eq {bits : Nat} (hb : bits < 32) (word : Word) :
    sha1CircularShift bits word = word.rotateLeft bits := by
  unfold sha1CircularShift BitVec.rotateLeft BitVec.rotateLeftAux
  rw [and_ones, Nat.mod_eq_of_lt hb]

theorem choice_eq (b c d : Word) : (b &&& c) ||| (~~~b &&& d) = (b &&& c) ^^^ (~~~b &&& d) := by
  ext i hi
  simp only [BitVec.getElem_or, BitVec.getElem_xor, BitVec.getElem_and, BitVec.getElem_not]
  cases b[i] <;> simp

theorem majority_eq (x y z : Word) : (x &&& y) ||| (x &&& z) ||| (y &&& z)
    = (x &&& y) ^^^ (x &&& z) ^^^ (y &&& z) := by
  ext i hi
  simp only [BitVec.getElem_or, BitVec.getElem_xor, BitVec.getElem_and]
  cases x[i] <;> cases y[i] <;> cases z[i] <;> rfl

/-- The array `W` after some turns of its second loop. -/
theorem wordSequence_prefix (block : Bytes) : ∀ n : Nat,
    ((List.range' 16 n).foldl
      (fun w t => w ++ [sha1CircularShift 1
        (w.getD (t - 3) 0 ^^^ w.getD (t - 8) 0 ^^^ w.getD (t - 14) 0 ^^^ w.getD (t - 16) 0)])
      ((List.range 16).map (blockWord block))) = (List.range (16 + n)).map (expandedWord block)
  | 0 => by
    refine List.map_congr_left fun t ht => ?_
    rw [expandedWord, if_pos (List.mem_range.mp ht)]
  | n + 1 => by
    have hget : ∀ i, i < 16 + n →
        ((List.range (16 + n)).map (expandedWord block)).getD i 0 = expandedWord block i := by
      intro i hi
      rw [List.getD_eq_getElem?_getD, List.getElem?_map, List.getElem?_range hi]
      rfl
    rw [List.range'_concat, List.foldl_append, wordSequence_prefix block n, ← Nat.add_assoc,
      List.range_succ, List.map_append]
    simp only [List.foldl_cons, List.foldl_nil, List.map_cons, List.map_nil, Nat.one_mul]
    rw [hget _ (by omega), hget _ (by omega), hget _ (by omega), hget _ (by omega),
      sha1CircularShift_eq (by omega), expandedWord.eq_1 block (16 + n), if_neg (by omega)]

theorem getD_wordSequence {block : Bytes} {t : Nat} (ht : t < 80) :
    (wordSequence block).getD t 0 = expandedWord block t := by
  have hw : wordSequence block = (List.range 80).map (expandedWord block) :=
    wordSequence_prefix block 64
  rw [hw, List.getD_eq_getElem?_getD, List.getElem?_map, List.getElem?_range ht]
  rfl

/-- A loop of twenty rounds. -/
theorem foldl_sha1Round {block : Bytes} {f : Word → Word → Word → Word} {k : Word} {start : Nat}
    (hstart : start + 20 ≤ 80)
    (hf : ∀ t, start ≤ t → t < start + 20 → f = roundFunction t ∧ k = roundConstant t)
    (r : SHA1Words) : (List.range' start 20).foldl (sha1Round f k (wordSequence block)) r
      = (List.range' start 20).foldl (roundOf block) r := by
  refine List.foldl_ext _ _ _ fun r t ht => ?_
  obtain ⟨hlow, hhigh⟩ := List.mem_range'_1.mp ht
  obtain ⟨rfl, rfl⟩ := hf t hlow hhigh
  unfold sha1Round roundOf
  simp only [and_ones, getD_wordSequence (show t < 80 by omega),
    sha1CircularShift_eq (show 5 < 32 by omega), sha1CircularShift_eq (show 30 < 32 by omega)]

/-- **The four loops are the eighty rounds.** -/
theorem sha1ProcessBlock_eq : sha1ProcessBlock = compress := by
  funext digest block
  have hrange : List.range 80 = List.range' 0 20 ++ List.range' 20 20 ++ List.range' 40 20 ++
      List.range' 60 20 := by decide
  unfold sha1ProcessBlock compress
  simp only [and_ones, hrange, List.foldl_append, List.range_eq_range']
  have hchoice : ∀ t, 0 ≤ t → t < 0 + 20 → (fun b c d : Word => (b &&& c) ||| (~~~b &&& d))
      = roundFunction t ∧ 0x5A827999#32 = roundConstant t := by
    intro t _ ht
    refine ⟨?_, (if_pos (by omega)).symm⟩
    funext b c d
    rw [roundFunction, if_pos (by omega), choice_eq]
  have hparity : ∀ t, 20 ≤ t → t < 20 + 20 → (fun b c d : Word => b ^^^ c ^^^ d)
      = roundFunction t ∧ 0x6ED9EBA1#32 = roundConstant t := by
    intro t hlow ht
    refine ⟨?_, by rw [roundConstant, if_neg (by omega), if_pos (by omega)]⟩
    funext b c d
    rw [roundFunction, if_neg (by omega), if_neg (by omega)]
  have hmajority : ∀ t, 40 ≤ t → t < 40 + 20 →
      (fun b c d : Word => (b &&& c) ||| (b &&& d) ||| (c &&& d))
      = roundFunction t ∧ 0x8F1BBCDC#32 = roundConstant t := by
    intro t hlow ht
    refine ⟨?_, by rw [roundConstant, if_neg (by omega), if_neg (by omega), if_pos (by omega)]⟩
    funext b c d
    rw [roundFunction, if_neg (by omega), if_pos ⟨hlow, ht⟩, majority_eq]
  have hlast : ∀ t, 60 ≤ t → t < 60 + 20 → (fun b c d : Word => b ^^^ c ^^^ d)
      = roundFunction t ∧ 0xCA62C1D6#32 = roundConstant t := by
    intro t hlow ht
    refine ⟨?_, by rw [roundConstant, if_neg (by omega), if_neg (by omega), if_neg (by omega)]⟩
    funext b c d
    rw [roundFunction, if_neg (by omega), if_neg (by omega)]
  rw [foldl_sha1Round (by omega) hchoice, foldl_sha1Round (by omega) hparity,
    foldl_sha1Round (by omega) hmajority, foldl_sha1Round (by omega) hlast]

/-! ## The block that is not complete -/

/-- The first octets of the block are `pending`. -/
def Filled (context : SHA1Context) (pending : Bytes) : Prop :=
  context.messageBlockIndex = pending.length ∧
    context.messageBlock.1.take context.messageBlockIndex = pending

/-- The octets of the block are written one after the other. -/
theorem Filled.storeOctet {context : SHA1Context} {pending : Bytes} (h : Filled context pending)
    (hlt : pending.length < 64) (octet : UInt8) :
    Filled (storeOctet context octet) (pending ++ [octet]) := by
  obtain ⟨hindex, htake⟩ := h
  have hlen := context.messageBlock.2
  refine ⟨by rw [List.length_append, List.length_singleton, ← hindex]; rfl, ?_⟩
  show (context.messageBlock.1.set context.messageBlockIndex octet).take
    (context.messageBlockIndex + 1) = _
  rw [List.set_eq_take_append_cons_drop, if_pos (by omega), List.take_append, htake, hindex,
    List.take_of_length_le (by omega), Nat.add_sub_cancel_left]
  rfl

theorem foldl_storeOctet : ∀ {octets : Bytes} {context : SHA1Context} {pending : Bytes},
    Filled context pending → pending.length + octets.length ≤ 64 →
      Filled (octets.foldl storeOctet context) (pending ++ octets) ∧
        (octets.foldl storeOctet context).messageDigest = context.messageDigest ∧
        (octets.foldl storeOctet context).lengthLow = context.lengthLow ∧
        (octets.foldl storeOctet context).lengthHigh = context.lengthHigh
  | [], _, _, h, _ => ⟨(List.append_nil _).symm ▸ h, rfl, rfl, rfl⟩
  | octet :: octets, context, pending, h, hle => by
    rw [List.length_cons] at hle
    have hrest := @foldl_storeOctet octets _ _ (h.storeOctet (by omega) octet) (by
      rw [List.length_append, List.length_singleton]
      omega)
    rw [List.append_assoc] at hrest
    exact hrest

/-- What a digest is does not matter for the rest of the context. -/
theorem with_digest (context : SHA1Context) (digest : SHA1Words) (index : Nat) :
    let context' := { context with messageDigest := digest, messageBlockIndex := index }
    context'.lengthLow = context.lengthLow ∧ context'.lengthHigh = context.lengthHigh ∧
      context'.computed = context.computed ∧ context'.corrupted = context.corrupted :=
  ⟨rfl, rfl, rfl, rfl⟩

theorem sha1ProcessMessageBlock_keeps (context : SHA1Context) :
    (sha1ProcessMessageBlock context).lengthLow = context.lengthLow ∧
      (sha1ProcessMessageBlock context).lengthHigh = context.lengthHigh ∧
      (sha1ProcessMessageBlock context).computed = context.computed ∧
      (sha1ProcessMessageBlock context).corrupted = context.corrupted :=
  with_digest context _ 0

theorem Filled.processed {context : SHA1Context} {pending : Bytes} (h : Filled context pending)
    (hfull : pending.length = 64) : Filled (sha1ProcessMessageBlock context) [] ∧
      (sha1ProcessMessageBlock context).messageDigest
        = compress context.messageDigest pending := by
  obtain ⟨hindex, htake⟩ := h
  have hblock : context.messageBlock.1 = pending := by
    have hlen : context.messageBlock.1.length = context.messageBlockIndex := by
      rw [context.messageBlock.2, hindex, hfull]
    rw [← htake, List.take_of_length_le (Nat.le_of_eq hlen)]
  refine ⟨⟨rfl, rfl⟩, ?_⟩
  show sha1ProcessBlock context.messageDigest context.messageBlock.1 = _
  rw [sha1ProcessBlock_eq, hblock]

/-! ## The counter -/

/-- The two words count the bits of a message of `n` octets. -/
def Counts (context : SHA1Context) (n : Nat) : Prop :=
  context.lengthLow = BitVec.ofNat 32 (8 * n) ∧
    context.lengthHigh = BitVec.ofNat 32 (8 * n / 2 ^ 32)

/-- **The count goes on until it does not fit.** -/
theorem Counts.countOctet {context : SHA1Context} {n : Nat} (h : Counts context n)
    (hn : n < 2 ^ 61) (hc : context.corrupted = false) : Counts (countOctet context) (n + 1) ∧
      ((countOctet context).corrupted = true ↔ n + 1 = 2 ^ 61) := by
  obtain ⟨hlow, hhigh⟩ := h
  have hlow' : context.lengthLow + 8#32 = BitVec.ofNat 32 (8 * (n + 1)) := by
    rw [hlow, Nat.mul_succ, BitVec.ofNat_add]
  have hzero : BitVec.ofNat 32 (8 * (n + 1)) = 0#32 ↔ 8 * (n + 1) % 2 ^ 32 = 0 := by
    rw [← BitVec.toNat_inj, BitVec.toNat_ofNat]
    rfl
  unfold Mukite.countOctet
  dsimp only
  rw [hlow']
  split
  · next h0 =>
    have hmod := hzero.mp h0
    have hhigh' : context.lengthHigh + 1#32 = BitVec.ofNat 32 (8 * (n + 1) / 2 ^ 32) := by
      rw [hhigh, ← BitVec.ofNat_add]
      congr 1
      omega
    rw [hhigh']
    have hwrap : BitVec.ofNat 32 (8 * (n + 1) / 2 ^ 32) = 0#32 ↔ n + 1 = 2 ^ 61 := by
      rw [← BitVec.toNat_inj, BitVec.toNat_ofNat]
      show 8 * (n + 1) / 2 ^ 32 % 2 ^ 32 = 0 ↔ _
      omega
    split
    · next hw => exact ⟨⟨rfl, rfl⟩, iff_of_true rfl (hwrap.mp hw)⟩
    · next hw =>
      refine ⟨⟨rfl, rfl⟩, iff_of_false ?_ (fun he => hw (hwrap.mpr he))⟩
      show ¬ context.corrupted = true
      rw [hc]
      exact Bool.false_ne_true
  · next h0 =>
    have hmod : 8 * (n + 1) % 2 ^ 32 ≠ 0 := fun he => h0 (hzero.mpr he)
    refine ⟨⟨rfl, hhigh.trans ?_⟩, iff_of_false ?_ (by omega)⟩
    · congr 1
      omega
    · show ¬ context.corrupted = true
      rw [hc]
      exact Bool.false_ne_true

theorem countOctet_keeps (context : SHA1Context) :
    (countOctet context).messageDigest = context.messageDigest ∧
      (countOctet context).messageBlock = context.messageBlock ∧
      (countOctet context).messageBlockIndex = context.messageBlockIndex ∧
      (countOctet context).computed = context.computed := by
  unfold countOctet
  dsimp only
  split
  · split <;> exact ⟨rfl, rfl, rfl, rfl⟩
  · exact ⟨rfl, rfl, rfl, rfl⟩

/-! ## A message in pieces -/

/-- The whole blocks of a text have been absorbed, the rest waits. -/
def absorbed (text : Bytes) : Absorber SHA1Words UInt8 :=
  absorbAll 64 compress { state := sha1Start, pending := [] } text

theorem absorbed_eq (text : Bytes) : absorbed text =
    { state := (blocks 64 text).foldl compress sha1Start, pending := leftover 64 text } :=
  absorbAll_eq (Nat.zero_lt_succ 63) (Nat.zero_lt_succ 63)

theorem length_pending (text : Bytes) : (absorbed text).pending.length = text.length % 64 := by
  rw [absorbed_eq]
  show (text.drop (text.length / 64 * 64)).length = _
  rw [List.length_drop]
  omega

/-- A context that has been given `text`. -/
structure Digesting (context : SHA1Context) (text : Bytes) : Prop where
  digest : context.messageDigest = (absorbed text).state
  filled : Filled context (absorbed text).pending
  counts : Counts context text.length
  short : text.length < 2 ^ 61
  open_ : context.computed = false
  sound : context.corrupted = false

theorem digesting_reset (context : SHA1Context) : Digesting (sha1Reset context) [] where
  digest := rfl
  filled := ⟨rfl, rfl⟩
  counts := ⟨rfl, rfl⟩
  short := Nat.two_pow_pos 61
  open_ := rfl
  sound := rfl

/-- **One octet**: a block that is full is processed, and the index never leaves the block. -/
theorem Digesting.octet {context : SHA1Context} {text : Bytes} (h : Digesting context text)
    (octet : UInt8) : (inputOctet context octet).computed = false ∧
      ((inputOctet context octet).corrupted = true ↔ text.length + 1 = 2 ^ 61) ∧
      (text.length + 1 < 2 ^ 61 → Digesting (inputOctet context octet) (text ++ [octet])) := by
  have hlt : (absorbed text).pending.length < 64 := by
    rw [length_pending]
    exact Nat.mod_lt _ (by omega)
  have hstored := h.filled.storeOctet hlt octet
  obtain ⟨hcounts, hcorrupted⟩ :=
    @Counts.countOctet (storeOctet context octet) _ h.counts h.short h.sound
  obtain ⟨hdigest, hblock, hindex, hcomputed⟩ := countOctet_keeps (storeOctet context octet)
  have hfilled : Filled (countOctet (storeOctet context octet))
      ((absorbed text).pending ++ [octet]) := by
    unfold Filled
    rw [hblock, hindex]
    exact hstored
  have hnext : absorbed (text ++ [octet]) = absorb 64 compress (absorbed text) octet :=
    absorbAll_append
  have hlength : (text ++ [octet]).length = text.length + 1 := List.length_append
  unfold inputOctet
  dsimp only
  unfold absorb at hnext
  split
  · next hfull =>
    have hsixty : ((absorbed text).pending ++ [octet]).length = 64 := hfilled.1 ▸ hfull
    rw [if_pos hsixty] at hnext
    obtain ⟨hempty, hstate⟩ := hfilled.processed hsixty
    obtain ⟨hlow, hhigh, hopen, hsame⟩ :=
      sha1ProcessMessageBlock_keeps (countOctet (storeOctet context octet))
    rw [hopen, hsame]
    refine ⟨hcomputed.trans h.open_, hcorrupted, fun hshort => ?_⟩
    have hsound : (countOctet (storeOctet context octet)).corrupted = false :=
      Bool.eq_false_iff.mpr fun hc => by
        have := hcorrupted.mp hc
        omega
    refine ⟨?_, ?_, ?_, hlength ▸ hshort, hopen.trans (hcomputed.trans h.open_),
      hsame.trans hsound⟩
    · rw [hstate, hnext, hdigest]
      exact congrArg (fun d => compress d _) h.digest
    · rw [hnext]
      exact hempty
    · unfold Counts
      rw [hlow, hhigh, hlength]
      exact hcounts
  · next hfull =>
    have hsixty : ¬ ((absorbed text).pending ++ [octet]).length = 64 := hfilled.1 ▸ hfull
    rw [if_neg hsixty] at hnext
    refine ⟨hcomputed.trans h.open_, hcorrupted, fun hshort => ?_⟩
    have hsound : (countOctet (storeOctet context octet)).corrupted = false :=
      Bool.eq_false_iff.mpr fun hc => by
        have := hcorrupted.mp hc
        omega
    refine ⟨?_, ?_, hlength ▸ hcounts, hlength ▸ hshort, hcomputed.trans h.open_, hsound⟩
    · rw [hnext, hdigest]
      exact h.digest
    · rw [hnext]
      exact hfilled

/-- **A piece of a message.** -/
theorem Digesting.loop : ∀ {message : Bytes} {context : SHA1Context} {text : Bytes},
    Digesting context text →
      (text.length + message.length < 2 ^ 61 →
        Digesting (inputLoop context message) (text ++ message)) ∧
      (2 ^ 61 ≤ text.length + message.length → (inputLoop context message).corrupted = true)
  | [], context, text, h => by
    refine ⟨fun _ => (List.append_nil text).symm ▸ h, fun hlong => ?_⟩
    have := h.short
    simp only [List.length_nil] at hlong
    omega
  | octet :: message, context, text, h => by
    obtain ⟨-, hcorrupted, hnext⟩ := h.octet octet
    have hloop : inputLoop context (octet :: message)
        = inputLoop (inputOctet context octet) message := by
      rw [inputLoop, h.sound, if_neg Bool.false_ne_true]
    rw [hloop, List.length_cons]
    by_cases hone : text.length + 1 = 2 ^ 61
    · refine ⟨fun hshort => absurd hshort (by omega), fun _ => ?_⟩
      have hc := hcorrupted.mpr hone
      cases message with
      | nil => exact hc
      | cons octet' message => rw [inputLoop, if_pos hc, hc]
    · have hsmall := h.short
      obtain ⟨hshort, hlong⟩ := @Digesting.loop message _ _ (hnext (by omega))
      rw [List.length_append, List.length_singleton, List.append_assoc] at hshort
      rw [List.length_append, List.length_singleton] at hlong
      exact ⟨fun hs => hshort (by omega), fun hl => hlong (by omega)⟩

/-! ## The end of the message -/

/-- An octet of a number, taken from a word of it. -/
theorem octet_of_word {m shift : Nat} (hshift : shift + 8 ≤ 32) :
    UInt8.ofBitVec ((BitVec.ofNat 32 m >>> shift &&& 0xFF#32).setWidth 8)
      = UInt8.ofNat (m / 2 ^ shift) := by
  refine UInt8.toBitVec_inj.mp (BitVec.eq_of_getLsbD_eq fun i hi => ?_)
  show ((BitVec.ofNat 32 m >>> shift &&& 0xFF#32).setWidth 8).getLsbD i
    = (BitVec.ofNat 8 (m / 2 ^ shift)).getLsbD i
  have hlow : shift + i < 32 := by omega
  have hword : i < 32 := by omega
  have hmask : (0xFF#32).getLsbD i = true := by
    rw [BitVec.getLsbD_ofNat, show (0xFF : Nat) = 2 ^ 8 - 1 from rfl, Nat.testBit_two_pow_sub_one]
    simp [hi, hword]
  rw [BitVec.getLsbD_setWidth, BitVec.getLsbD_and, BitVec.getLsbD_ushiftRight, hmask,
    BitVec.getLsbD_ofNat, BitVec.getLsbD_ofNat, Nat.testBit_div_two_pow, Nat.add_comm shift i]
  simp [hi, Nat.add_comm i shift, hlow]

/-- **The two words of the count are the eight octets.** -/
theorem octets64_eq (m : Nat) : wordOctets (BitVec.ofNat 32 (m / 2 ^ 32)) ++
    wordOctets (BitVec.ofNat 32 m) = octets64 m := by
  have hdiv : ∀ shift, m / 2 ^ 32 / 2 ^ shift = m / 2 ^ (32 + shift) := by
    intro shift
    rw [Nat.div_div_eq_div_mul, ← Nat.pow_add]
  unfold wordOctets octets64
  simp only [List.map_cons, List.map_nil, List.range_succ, List.range_zero, List.nil_append,
    List.cons_append]
  rw [octet_of_word (by omega), octet_of_word (by omega), octet_of_word (by omega),
    octet_of_word (by omega), octet_of_word (by omega), octet_of_word (by omega),
    octet_of_word (by omega), octet_of_word (by omega), hdiv, hdiv, hdiv, hdiv]

theorem Filled.zeroFill {context : SHA1Context} {pending : Bytes} (h : Filled context pending)
    {upTo : Nat} (hlow : pending.length ≤ upTo) (hup : upTo ≤ 64) :
    Filled (zeroFill upTo context) (pending ++ List.replicate (upTo - pending.length) 0) ∧
      (zeroFill upTo context).messageDigest = context.messageDigest ∧
      (zeroFill upTo context).lengthLow = context.lengthLow ∧
      (zeroFill upTo context).lengthHigh = context.lengthHigh := by
  unfold Mukite.zeroFill
  rw [h.1]
  refine foldl_storeOctet h ?_
  rw [List.length_replicate]
  omega

/-- The last block, when there is room for the length in it. -/
theorem Filled.lastBlock {context : SHA1Context} {pending : Bytes} (h : Filled context pending)
    (hle : pending.length ≤ 56) {n : Nat} (hcount : Counts context n) :
    (sha1ProcessMessageBlock (storeLength (Mukite.zeroFill 56 context))).messageDigest
      = compress context.messageDigest
        (pending ++ List.replicate (56 - pending.length) 0 ++ octets64 (8 * n)) := by
  obtain ⟨⟨hindex, htake⟩, hdigest, hlow, hhigh⟩ := h.zeroFill hle (by omega)
  have hlen : (pending ++ List.replicate (56 - pending.length) 0).length = 56 := by
    rw [List.length_append, List.length_replicate]
    omega
  show sha1ProcessBlock (Mukite.zeroFill 56 context).messageDigest
    ((Mukite.zeroFill 56 context).messageBlock.1.take 56 ++
      wordOctets (Mukite.zeroFill 56 context).lengthHigh ++
      wordOctets (Mukite.zeroFill 56 context).lengthLow) = _
  rw [hindex, hlen] at htake
  rw [sha1ProcessBlock_eq, htake, hdigest, hlow, hhigh, hcount.1, hcount.2, List.append_assoc,
    octets64_eq]

theorem length_octets64 (m : Nat) : (octets64 m).length = 8 := by
  rw [octets64, List.length_map, List.length_range]

theorem foldl_blocks_one {block : Bytes} (hlen : block.length = 64) (digest : SHA1Words) :
    (blocks 64 block).foldl compress digest = compress digest block := by
  have hone := blocks_append (show 0 < 64 by omega) hlen []
  rw [List.append_nil, blocks_short (show ([] : Bytes).length < 64 by simp)] at hone
  rw [hone]
  rfl

/-- **`SHA1PadMessage` finishes the digest of the message**, with one block or two. -/
theorem Digesting.padded {context : SHA1Context} {text : Bytes} (h : Digesting context text) :
    (sha1PadMessage context).messageDigest = sha1 text := by
  obtain ⟨digest, pending, hstart⟩ : ∃ digest pending, absorbed text = ⟨digest, pending⟩ :=
    ⟨_, _, rfl⟩
  have hpending : pending.length = text.length % 64 := by
    rw [← length_pending, hstart]
  have hlt : pending.length < 64 := by omega
  have hfilled : Filled context pending := by
    have := h.filled
    rwa [hstart] at this
  have hdigest : context.messageDigest = digest := by
    rw [h.digest, hstart]
  -- what is left of the message, with its padding, is all that has still to be processed
  have hsha : sha1 text
      = (blocks 64 (pending ++ padding text.length)).foldl compress digest := by
    rw [absorbed_eq] at hstart
    obtain ⟨rfl, rfl⟩ := Absorber.mk.inj hstart
    exact foldl_blocks_append (by omega) text _ sha1Start
  rw [hsha]
  have hbit := hfilled.storeOctet hlt 0x80
  unfold sha1PadMessage padding
  dsimp only
  rw [hfilled.1]
  split
  · next hlong =>
    have hzeros : (119 - text.length % 64) % 64 = (63 - pending.length) + 56 := by omega
    have hbit_le : (pending ++ [(0x80 : UInt8)]).length ≤ 64 := by simp; omega
    obtain ⟨hfull, hdigest₁, hlow₁, hhigh₁⟩ := hbit.zeroFill hbit_le (Nat.le_refl 64)
    have hsixty : (pending ++ [0x80] ++
        List.replicate (64 - (pending ++ [(0x80 : UInt8)]).length) 0).length = 64 := by
      simp
      omega
    obtain ⟨hempty, hdigest₂⟩ := hfull.processed hsixty
    obtain ⟨hlow₂, hhigh₂, -⟩ :=
      sha1ProcessMessageBlock_keeps (zeroFill 64 (storeOctet context 0x80))
    have hcounts : Counts (sha1ProcessMessageBlock (zeroFill 64 (storeOctet context 0x80)))
        text.length := by
      unfold Counts
      rw [hlow₂, hhigh₂, hlow₁, hhigh₁]
      exact h.counts
    have htwo : pending ++ 0x80 :: (List.replicate ((63 - pending.length) + 56) 0 ++
        octets64 (8 * text.length)) = (pending ++ [0x80] ++
          List.replicate (64 - (pending ++ [(0x80 : UInt8)]).length) 0) ++
          ([] ++ List.replicate 56 0 ++ octets64 (8 * text.length)) := by
      rw [List.replicate_add, List.length_append, List.length_singleton, Nat.sub_add_eq,
        Nat.sub_right_comm]
      simp
    rw [hempty.lastBlock (Nat.zero_le 56) hcounts, hdigest₂, hdigest₁, hzeros, htwo,
      blocks_append (by omega) hsixty, List.foldl_cons, foldl_blocks_one (by simp [length_octets64])]
    show compress (compress context.messageDigest _) _ = _
    rw [hdigest]
    rfl
  · next hshort =>
    have hzeros : (119 - text.length % 64) % 64 = 55 - pending.length := by omega
    have hbit_le : (pending ++ [(0x80 : UInt8)]).length ≤ 56 := by simp; omega
    have hone : pending ++ 0x80 :: (List.replicate (55 - pending.length) 0 ++
        octets64 (8 * text.length)) = pending ++ [0x80] ++
          List.replicate (56 - (pending ++ [(0x80 : UInt8)]).length) 0 ++
          octets64 (8 * text.length) := by
      rw [List.length_append, List.length_singleton, Nat.sub_add_eq, Nat.sub_right_comm]
      simp
    have hsixty : (pending ++ [0x80] ++
        List.replicate (56 - (pending ++ [(0x80 : UInt8)]).length) 0 ++
        octets64 (8 * text.length)).length = 64 := by
      simp [length_octets64]
      omega
    rw [hbit.lastBlock hbit_le h.counts, hzeros, hone, foldl_blocks_one hsixty]
    show compress context.messageDigest _ = _
    rw [hdigest]

/-! ## Every order of calls -/

/-- What a context is for: a message, until there is an error. -/
inductive HashObject where
  | collecting (text : Bytes)
  | finished (text : Bytes)
  | broken

/-- A message can be extended as long as nothing has been read, and up to `2 ^ 61` octets. -/
def hashStep : HashObject → Sha1Call → Option (HashObject × Option SHA1Words)
  | _, .reset => some (.collecting [], none)
  | .collecting text, .input message =>
    some (if text.length + message.length < 2 ^ 61 then .collecting (text ++ message) else .broken,
      none)
  | .finished text, .input message =>
    some (if message = [] then .finished text else .broken, none)
  | .broken, .input _ => some (.broken, none)
  | .collecting text, .result => some (.finished text, some (sha1 text))
  | .finished text, .result => some (.finished text, some (sha1 text))
  | .broken, .result => some (.broken, none)

/-- The context of a hash object. -/
inductive Represents : SHA1Context → HashObject → Prop
  | collecting {context text} (h : Digesting context text) : Represents context (.collecting text)
  | finished {context text} (hdigest : context.messageDigest = sha1 text)
      (hcomputed : context.computed = true) (hsound : context.corrupted = false) :
      Represents context (.finished text)
  | broken {context} (h : context.corrupted = true) : Represents context .broken

theorem sha1Input_nil (context : SHA1Context) : sha1Input context [] = context := if_pos rfl

theorem sha1Input_open {context : SHA1Context} {text : Bytes} (h : Digesting context text)
    (message : Bytes) : sha1Input context message = inputLoop context message := by
  unfold sha1Input
  rw [h.open_, h.sound, if_neg (show ¬ (false || false) = true by simp)]
  cases message <;> rfl

theorem sha1Input_closed {context : SHA1Context}
    (h : (context.computed || context.corrupted) = true) {message : Bytes} (hm : message ≠ []) :
    (sha1Input context message).corrupted = true := by
  unfold sha1Input
  rw [if_neg (by simpa using hm), if_pos h]

/-- A message in one piece. -/
theorem sha1_of_text (context : SHA1Context) {text : Bytes} (h : text.length < 2 ^ 61) :
    (sha1Result (sha1Input (sha1Reset context) text)).2 = true ∧
      (sha1Result (sha1Input (sha1Reset context) text)).1.messageDigest = sha1 text := by
  have hnil : ([] : Bytes).length + text.length < 2 ^ 61 := by simpa using h
  have hd := (@Digesting.loop text _ _ (digesting_reset context)).1 hnil
  rw [← sha1Input_open (digesting_reset context), List.nil_append] at hd
  have hresult : sha1Result (sha1Input (sha1Reset context) text)
      = ({ sha1PadMessage (sha1Input (sha1Reset context) text) with computed := true }, true) := by
    unfold sha1Result
    rw [hd.sound, if_neg Bool.false_ne_true, hd.open_, if_neg Bool.false_ne_true]
  rw [hresult]
  exact ⟨rfl, hd.padded⟩

theorem Represents.input {context : SHA1Context} {object : HashObject} (message : Bytes)
    (h : Represents context object) :
    ∃ object', hashStep object (.input message) = some (object', none) ∧
      Represents (sha1Input context message) object' := by
  cases h with
  | @collecting text hd =>
    refine ⟨_, rfl, ?_⟩
    obtain ⟨hshort, hlong⟩ := @Digesting.loop message _ _ hd
    rw [sha1Input_open hd]
    split
    · next hlt => exact .collecting (hshort hlt)
    · next hge => exact .broken (hlong (Nat.le_of_not_lt hge))
  | finished hdigest hcomputed hsound =>
    refine ⟨_, rfl, ?_⟩
    split
    · next hm =>
      rw [hm, sha1Input_nil]
      exact .finished hdigest hcomputed hsound
    · next hm => exact .broken (sha1Input_closed (by rw [hcomputed]; rfl) hm)
  | broken hc =>
    refine ⟨_, rfl, .broken ?_⟩
    cases message with
    | nil =>
      rw [sha1Input_nil]
      exact hc
    | cons octet message => exact sha1Input_closed (by rw [hc, Bool.or_true]) (List.cons_ne_nil _ _)

theorem sha1PadMessage_sound (context : SHA1Context) :
    (sha1PadMessage context).corrupted = context.corrupted := by
  have hfold : ∀ (octets : Bytes) (context : SHA1Context),
      (octets.foldl storeOctet context).corrupted = context.corrupted := by
    intro octets
    induction octets with
    | nil => exact fun _ => rfl
    | cons octet octets ih => exact fun context => ih (storeOctet context octet)
  have hzero : ∀ upTo (context : SHA1Context),
      (zeroFill upTo context).corrupted = context.corrupted := fun _ _ => hfold _ _
  unfold sha1PadMessage
  dsimp only
  rw [(sha1ProcessMessageBlock_keeps _).2.2.2]
  show (if context.messageBlockIndex > 55 then _ else _ : SHA1Context).corrupted = _
  split
  · rw [hzero, (sha1ProcessMessageBlock_keeps _).2.2.2, hzero]
    rfl
  · rw [hzero]
    rfl

theorem Represents.result {context : SHA1Context} {object : HashObject}
    (h : Represents context object) :
    ∃ object' o, hashStep object .result = some (object', o) ∧
      sha1Step context .result = some ((sha1Result context).1, o) ∧
      Represents (sha1Result context).1 object' := by
  cases h with
  | @collecting text hd =>
    have hresult : sha1Result context
        = ({ sha1PadMessage context with computed := true }, true) := by
      unfold sha1Result
      rw [hd.sound, if_neg Bool.false_ne_true, hd.open_, if_neg Bool.false_ne_true]
    refine ⟨_, _, rfl, ?_, .finished ?_ ?_ ?_⟩
    · unfold sha1Step
      rw [hresult, ← hd.padded]
      rfl
    · rw [hresult]
      exact hd.padded
    · rw [hresult]
    · rw [hresult]
      exact (sha1PadMessage_sound context).trans hd.sound
  | finished hdigest hcomputed hsound =>
    have hresult : sha1Result context = (context, true) := by
      unfold sha1Result
      rw [hsound, if_neg Bool.false_ne_true, hcomputed, if_pos rfl]
    refine ⟨_, _, rfl, ?_, ?_⟩
    · unfold sha1Step
      rw [hresult, ← hdigest]
      rfl
    · rw [hresult]
      exact .finished hdigest hcomputed hsound
  | broken hc =>
    have hresult : sha1Result context = (context, false) := by
      unfold sha1Result
      rw [hc, if_pos rfl]
    refine ⟨_, _, rfl, ?_, ?_⟩
    · unfold sha1Step
      rw [hresult]
      rfl
    · rw [hresult]
      exact .broken hc

/-- **A context is a hash object**: whatever is called after `SHA1Reset`, in whatever pieces a
message comes, the digests that can be read are those of the message. -/
theorem sha1_calls (context : SHA1Context) (calls : List Sha1Call) :
    outputs sha1Step (sha1Reset context) calls = outputs hashStep (.collecting []) calls := by
  have htotal : ∀ context call, (sha1Step context call).isSome := by
    intro context call
    cases call <;> exact Option.isSome_some
  obtain ⟨os, hos⟩ := outputs_total htotal calls (sha1Reset context)
  rw [hos]
  refine (outputs_refine (fun context object call context' o h hstep => ?_)
    (Represents.collecting (digesting_reset context)) hos).symm
  cases call with
  | reset =>
    cases hstep
    exact ⟨_, by cases object <;> rfl, .collecting (digesting_reset _)⟩
  | input message =>
    cases hstep
    exact h.input message
  | result =>
    obtain ⟨object', o', hobject, hcontext, hnext⟩ := h.result
    rw [hcontext] at hstep
    cases hstep
    exact ⟨object', hobject, hnext⟩

end Mukite
