import Mukite.Properties.FormFields
import Mukite.Properties.Received
import Mukite.Stdio

/-!
# What the conversions read

A number is scanned as it was printed (`scanInt_toString`), and a word or a line is scanned as it
stands in the text. What has been scanned has the form that the conversion asks for
(`scanWord_form`, `scanLine_form`).
-/

namespace Mukite

open Scan

variable {file file' : InputFile} {text rest : Bytes} {width : Nat} {ended : Bool}

/-- No white space begins the text. -/
theorem scanSpace_none (h : Stops isspace text) (hne : text ≠ []) :
    scanSpace ⟨text, ended⟩ = ⟨text, ended⟩ := by
  have hskip := @takeAll_word _ isspace [] text ended (fun _ hc => by cases hc) h
  unfold scanSpace
  rw [List.nil_append] at hskip
  rw [hskip, List.isEmpty_eq_false_iff.mpr hne, Bool.or_false]

/-- One white-space character, and no other. -/
theorem scanSpace_one {c : UInt8} (hc : isspace c = true) (h : Stops isspace rest) :
    scanSpace ⟨c :: rest, ended⟩ = ⟨rest, ended || rest.isEmpty⟩ := by
  have hskip := @takeAll_word _ isspace [c] rest ended
    (fun d hd => by rw [List.mem_singleton.mp hd]; exact hc) h
  unfold scanSpace
  rw [List.singleton_append] at hskip
  rw [hskip]

/-- White space may have been skipped before. -/
theorem scanWord_space : scanWord width (scanSpace file) = scanWord width file := by
  unfold scanWord scanSpace
  rw [takeAll_takeAll]

theorem scanWord_cons {c : UInt8} (hc : isspace c = true) :
    scanWord width ⟨c :: rest, ended⟩ = scanWord width ⟨rest, ended⟩ := by
  unfold scanWord scanSpace
  rw [takeAll_cons hc]

theorem length_scanSpace : (scanSpace file).rest.length ≤ file.rest.length :=
  length_rest_takeChars

/-! ## Words and lines -/

theorem scanned_some {taken : Bytes × InputFile} (h : scanned taken = (some text, file')) :
    taken = (text, file') ∧ text ≠ [] := by
  unfold scanned at h
  split at h
  · cases h
  · next hne =>
    cases h
    exact ⟨rfl, fun he => hne (by rw [he]; rfl)⟩

theorem scanned_of_ne (hne : text ≠ []) : scanned (text, file') = (some text, file') := by
  unfold scanned
  rw [if_neg (by simpa using hne)]

/-- **A line is scanned up to its end.** -/
theorem scanLine_line (hne : text ≠ []) (hline : newline ∉ text) (hlen : text.length ≤ width) :
    scanLine width ⟨text ++ newline :: rest, ended⟩
      = (some text, ⟨newline :: rest, ended⟩) := by
  have htaken := @takeChars_word _ (· != newline) width text (newline :: rest) ended
    (fun c hc => bne_iff_ne.mpr fun he => hline (he ▸ hc)) hlen (.inl (stops_cons (by simp)))
  unfold scanLine
  rw [htaken, List.isEmpty_cons, Bool.and_false, Bool.or_false]
  exact scanned_of_ne hne

theorem scanLine_form (h : scanLine width file = (some text, file')) :
    text ≠ [] ∧ newline ∉ text ∧ text.length ≤ width ∧ text ++ file'.rest = file.rest := by
  obtain ⟨htaken, hne⟩ := scanned_some h
  have hrest := @takeChars_rest _ (· != newline) width file
  have hlen := @length_takeChars _ (· != newline) width file
  have hmem := fun c => @of_mem_takeChars _ (· != newline) width file c
  rw [htaken] at hrest hlen hmem
  refine ⟨hne, fun hin => ?_, hlen, hrest⟩
  simpa using hmem newline hin

/-- **A word is scanned up to the white space behind it.** -/
theorem scanWord_word (hne : text ≠ []) (hword : ∀ c ∈ text, isspace c = false)
    (hlen : text.length ≤ width) {c : UInt8} (hc : isspace c = true) :
    scanWord width ⟨text ++ c :: rest, ended⟩ = (some text, ⟨c :: rest, ended⟩) := by
  have hstops : Stops isspace (text ++ c :: rest) := by
    intro d hd
    cases text with
    | nil => exact absurd rfl hne
    | cons e text =>
      cases hd
      exact hword d List.mem_cons_self
  have htaken := @takeChars_word _ (fun c => !isspace c) width text (c :: rest) ended
    (fun d hd => by simp [hword d hd]) hlen (.inl (stops_cons (by simp [hc])))
  unfold scanWord
  rw [scanSpace_none hstops (by simp), htaken, List.isEmpty_cons, Bool.and_false, Bool.or_false]
  exact scanned_of_ne hne

theorem length_scanned {taken : Bytes × InputFile} :
    (scanned taken).2.rest.length = taken.2.rest.length := by
  unfold scanned
  split <;> rfl

theorem length_scanWord : (scanWord width file).2.rest.length ≤ file.rest.length := by
  unfold scanWord
  rw [length_scanned]
  exact Nat.le_trans length_rest_takeChars length_scanSpace

theorem length_skipLine : (skipLine file).2.rest.length ≤ file.rest.length := by
  unfold skipLine
  rw [length_scanned]
  exact length_rest_takeChars

theorem scanWord_form (h : scanWord width file = (some text, file')) :
    text ≠ [] ∧ (∀ c ∈ text, isspace c = false) ∧
      text ++ file'.rest = (scanSpace file).rest := by
  obtain ⟨htaken, hne⟩ := scanned_some h
  have hrest := @takeChars_rest _ (fun c => !isspace c) width (scanSpace file)
  have hmem := fun c => @of_mem_takeChars _ (fun c => !isspace c) width (scanSpace file) c
  rw [htaken] at hrest hmem
  exact ⟨hne, fun c hc => by simpa using hmem c hc, hrest⟩

/-- A word has been consumed. -/
theorem scanWord_shorter (h : scanWord width file = (some text, file')) :
    file'.rest.length < file.rest.length := by
  obtain ⟨hne, -, hrest⟩ := scanWord_form h
  have hlen := congrArg List.length hrest
  have hpos := List.length_pos_of_ne_nil hne
  have hle := @length_scanSpace file
  rw [List.length_append] at hlen
  omega

/-! ## Numbers -/

/-- A character that a number begins with. -/
theorem digit_char {d : Char} (h : d.isDigit = true) :
    isdigit (ch d) = true ∧ isSign (ch d) = false ∧ isspace (ch d) = false := by
  have hdigit : 48 ≤ d.toNat ∧ d.toNat ≤ 57 := by
    simpa [Char.isDigit, UInt32.le_iff_toNat_le] using h
  have hall : ∀ m < 10, isdigit (UInt8.ofNat (48 + m)) = true ∧
      isSign (UInt8.ofNat (48 + m)) = false ∧ isspace (UInt8.ofNat (48 + m)) = false := by
    decide
  have hch : ch d = UInt8.ofNat (48 + (d.toNat - 48)) := by
    unfold ch
    congr 1
    omega
  rw [hch]
  exact hall _ (by omega)

/-- A sign, or none, and digits. -/
structure Numeral (sign digits : Bytes) : Prop where
  sign : sign = [] ∨ sign = [ch '-']
  ne : digits ≠ []
  digit : ∀ c ∈ digits, isdigit c = true ∧ isSign c = false ∧ isspace c = false

theorem toDigits_numeral {sign : Bytes} (hsign : sign = [] ∨ sign = [ch '-']) (n : Nat) :
    Numeral sign ((Nat.toDigits 10 n).map ch) where
  sign := hsign
  ne := by simp [Nat.toDigits_ne_nil]
  digit := by
    intro c hc
    obtain ⟨d, hd, rfl⟩ := List.mem_map.mp hc
    exact digit_char (Nat.isDigit_of_mem_toDigits (by decide) (by decide) hd)

namespace Numeral

variable {sign digits : Bytes}

theorem stops (h : Numeral sign digits) : Stops isspace (sign ++ (digits ++ rest)) := by
  intro d hd
  cases digits with
  | nil => exact absurd rfl h.ne
  | cons c digits =>
    rcases h.sign with rfl | rfl
    · cases hd
      exact (h.digit d List.mem_cons_self).2.2
    · cases hd
      decide

theorem takeSign (h : Numeral sign digits) :
    takeChars isSign 1 ⟨sign ++ (digits ++ rest), ended⟩ = (sign, ⟨digits ++ rest, ended⟩) := by
  have hne : (digits ++ rest).isEmpty = false := by simp [h.ne]
  have hstops : Stops isSign (digits ++ rest) := by
    intro d hd
    cases digits with
    | nil => exact absurd rfl h.ne
    | cons c digits =>
      cases hd
      exact (h.digit d List.mem_cons_self).2.1
  rcases h.sign with rfl | rfl
  · rw [takeChars_word (by simp) (by simp) (.inl hstops), hne, Bool.and_false, Bool.or_false]
  · have hminus : ∀ c ∈ [ch '-'], isSign c = true := List.forall_mem_singleton.mpr (by decide)
    rw [takeChars_word hminus (by simp) (.inl hstops), hne, Bool.and_false, Bool.or_false]

/-- A numeral is scanned, and its value is the one of `atoi`. -/
theorem scanInt (h : Numeral sign digits) (hrest : Stops isdigit rest) :
    Mukite.scanInt ⟨sign ++ (digits ++ rest), ended⟩
      = (some (atoi (sign ++ digits)), ⟨rest, ended || rest.isEmpty⟩) := by
  have htext : sign ++ (digits ++ rest) ≠ [] := by simp [h.ne]
  unfold Mukite.scanInt
  dsimp only
  rw [scanSpace_none h.stops htext, h.takeSign,
    takeAll_word (fun c hc => (h.digit c hc).1) hrest,
    if_neg (by simpa using h.ne)]

/-- The value of a numeral. -/
theorem decimalValue (h : Numeral sign digits) :
    Mukite.decimalValue (sign ++ digits)
      = if sign = [] then (leadingDigits digits 0 : Int) else -(leadingDigits digits 0 : Int) := by
  have hspace := @h.stops []
  rw [List.append_nil] at hspace
  have hdrop : (sign ++ digits).dropWhile isspace = sign ++ digits := by
    cases hs : sign ++ digits with
    | nil => rfl
    | cons c cs =>
      rw [List.dropWhile_cons_of_neg (by rw [hspace c (by rw [hs]; rfl)]; decide)]
  unfold Mukite.decimalValue
  rw [hdrop]
  rcases h.sign with rfl | rfl
  · cases digits with
    | nil => exact absurd rfl h.ne
    | cons c cs =>
      have hc := (h.digit c List.mem_cons_self).2.1
      obtain ⟨hminus, hplus⟩ := Bool.or_eq_false_iff.mp hc
      simp only [List.nil_append, hminus, hplus, Bool.false_eq_true, if_false, if_true]
  · rfl

end Numeral

/-- What `%d` prints is a numeral with the value that was printed. -/
theorem toString_numeral (n : Int) : ∃ sign digits, Numeral sign digits ∧
    lit (toString n) = sign ++ digits ∧ decimalValue (sign ++ digits) = n := by
  have hdigits : ∀ m, leadingDigits ((Nat.toDigits 10 m).map ch) 0 = m := by
    intro m
    rw [leadingDigits_map fun d hd => Nat.isDigit_of_mem_toDigits (by decide) (by decide) hd,
      Nat.ofDigitChars_ten_toDigits]
  by_cases h0 : 0 ≤ n
  · have hnum := toDigits_numeral (.inl rfl) n.toNat
    refine ⟨[], _, hnum, ?_, ?_⟩
    · rw [Int.toString_eq_repr, Int.repr_eq_if, if_pos h0]
      unfold lit
      rw [Nat.toList_repr]
      rfl
    · rw [hnum.decimalValue, if_pos rfl, hdigits]
      omega
  · have hnum := toDigits_numeral (.inr rfl) (-n).toNat
    refine ⟨[ch '-'], _, hnum, ?_, ?_⟩
    · rw [Int.toString_eq_repr, Int.repr_eq_if, if_neg h0]
      unfold lit
      rw [String.toList_append, List.map_append, Nat.toList_repr]
      rfl
    · rw [hnum.decimalValue, if_neg (by simp), hdigits]
      omega

/-- **A number is scanned as it was printed.** -/
theorem scanInt_toString {n : Int} (hn : IsInt n) (hrest : Stops isdigit rest) :
    scanInt ⟨lit (toString n) ++ rest, ended⟩ = (some n, ⟨rest, ended || rest.isEmpty⟩) := by
  obtain ⟨sign, digits, hnum, htext, hvalue⟩ := toString_numeral n
  have hread : atoi (sign ++ digits) = n := by
    unfold atoi clampLong
    have hclamp : max (-2 ^ 63) (min (2 ^ 63 - 1) n) = n := by
      have h1 := hn.1
      have h2 := hn.2
      omega
    rw [hvalue, hclamp, cInt_eq hn]
  rw [htext, List.append_assoc, hnum.scanInt hrest, hread]

theorem scanInt_cons {c : UInt8} (hc : isspace c = true) :
    scanInt ⟨c :: rest, ended⟩ = scanInt ⟨rest, ended⟩ := by
  unfold scanInt scanSpace
  rw [takeAll_cons hc]

theorem length_scanInt : (scanInt file).2.rest.length ≤ file.rest.length := by
  have hrest : (takeAll isdigit (takeChars isSign 1 (scanSpace file)).2).2.rest.length
      ≤ file.rest.length :=
    Nat.le_trans length_rest_takeChars (Nat.le_trans length_rest_takeChars length_scanSpace)
  unfold scanInt
  dsimp only
  split <;> exact hrest

theorem scanInt_isInt {n : Int} (h : scanInt file = (some n, file')) : IsInt n := by
  unfold scanInt at h
  dsimp only at h
  split at h
  · cases h
  · cases h
    exact cInt_isInt _

end Mukite
