import Mukite.Config
import Mukite.Properties.Scanned

/-!
# A configuration file of lines

The reader knows words only. In a file whose lines assign a value to an option, name an option
that does not exist, or are comments, it finds the assignments (`configLoop_lines`): each option
ends up with the value that was assigned to it last, and one that no line assigns keeps the value
that it had (`config_read_lines`).
-/

namespace Mukite

open Scan WhileLoop

/-! ## Options -/

namespace Config

variable {config : Config} {option other : ConfigOption} {value : ConfigValue}

/-- The value is of the kind that the option has. -/
def Fits (option : ConfigOption) : ConfigValue → Prop
  | .str _ => option.isStr = true
  | .int _ => option.isStr = false

theorem get_set (h : Fits option value) : (config.set option value).get option = value := by
  cases option <;> cases value <;> first | rfl | cases h

theorem get_set_ne (h : other ≠ option) :
    (config.set option value).get other = config.get other := by
  cases option <;> cases value <;> cases other <;> first | rfl | exact absurd rfl h

end Config

/-- The name of an option. -/
def ConfigOption.name (option : ConfigOption) : Bytes :=
  ((configOptions.find? (fun known => known.1 == option)).map (·.2)).getD []

theorem configOption_name (option : ConfigOption) : configOption option.name = some option := by
  cases option <;> decide +kernel

/-- What a conversion `%1023s` reads as it is. -/
structure ConfigWord (word : Bytes) : Prop where
  ne : word ≠ []
  space : ∀ c ∈ word, isspace c = false
  terminator : (0 : UInt8) ∉ word
  length_le : word.length ≤ configOptionLength

namespace ConfigWord

variable {word rest : Bytes}

theorem scan (h : ConfigWord word) {c : UInt8} (hc : isspace c = true) :
    scanWord configOptionLength ⟨word ++ c :: rest, false⟩ = (some word, ⟨c :: rest, false⟩) :=
  scanWord_word h.ne h.space h.length_le hc

theorem cString (h : ConfigWord word) : Mukite.cString word = word := by
  unfold Mukite.cString
  rw [List.takeWhile_eq_self_iff]
  exact fun c hc => decide_eq_true fun he => h.terminator (he ▸ hc)

end ConfigWord

theorem configWord_of_all {word : Bytes} (hne : word ≠ [])
    (hall : word.all (fun c => !isspace c && c != 0) = true)
    (hlen : word.length ≤ configOptionLength) : ConfigWord word := by
  refine ⟨hne, fun c hc => ?_, fun h0 => ?_, hlen⟩
  · have hc := List.all_eq_true.mp hall c hc
    simp at hc
    exact hc.1
  · have h0 := List.all_eq_true.mp hall 0 h0
    simp at h0

theorem configOption_word (option : ConfigOption) :
    ConfigWord option.name ∧ option.name.head? ≠ some (ch '#') := by
  have hname : ∀ o : ConfigOption, (o.name ≠ [] ∧ o.name.all (fun c => !isspace c && c != 0) = true ∧
      o.name.length ≤ configOptionLength) ∧ o.name.head? ≠ some (ch '#') := by
    intro o
    cases o <;> decide +kernel
  obtain ⟨⟨hne, hall, hlen⟩, hhead⟩ := hname option
  exact ⟨configWord_of_all hne hall hlen, hhead⟩

/-! ## Lines -/

/-- A line of the file. -/
inductive ConfigLine
  | assign (option : ConfigOption) (value : ConfigValue)
  | unknown (name value : Bytes)
  | comment (text : Bytes)

def ConfigValue.text : ConfigValue → Bytes
  | .str value => value
  | .int value => lit (toString value)

/-- The value is read back from its text. -/
def ConfigValue.Readable : ConfigValue → Prop
  | .str value => ConfigWord value
  | .int value => IsInt value

/-- Neither the name of an option nor the beginning of a comment. -/
structure UnknownWord (word : Bytes) : Prop extends ConfigWord word where
  unknown : configOption word = none
  comment : word.head? ≠ some (ch '#')

namespace ConfigLine

def text : ConfigLine → Bytes
  | .assign option value => option.name ++ ch ' ' :: (value.text ++ [newline])
  | .unknown name value => name ++ ch ' ' :: (value ++ [newline])
  | .comment text => ch '#' :: (text ++ [newline])

def WellFormed : ConfigLine → Prop
  | .assign option value => Config.Fits option value ∧ value.Readable
  | .unknown name value => UnknownWord name ∧ UnknownWord value
  | .comment text => newline ∉ text

/-- What the line means. -/
def apply (config : Config) : ConfigLine → Config
  | .assign option value => config.set option value
  | _ => config

/-- The value that the line assigns to the option. -/
def assigned (option : ConfigOption) : ConfigLine → Option ConfigValue
  | .assign other value => if other = option then some value else none
  | _ => none

end ConfigLine

/-! ## The loop -/

variable {config config' : Config} {file file' : InputFile} {rest : Bytes}

theorem length_readConfig {option : ConfigOption} :
    (readConfig option config file).2.rest.length ≤ file.rest.length := by
  have hword := @length_scanWord file configOptionLength
  have hint := @length_scanInt file
  unfold readConfig
  split <;> split
  all_goals
    next hscan =>
    simp only [hscan] at hword hint
    assumption

theorem length_skipComment : (skipComment file).rest.length ≤ file.rest.length := by
  have hline := @length_skipLine file
  unfold skipComment
  split
  · next hskip =>
    rw [hskip] at hline
    exact Nat.le_trans length_scanSpace hline
  · next hskip =>
    rw [hskip] at hline
    exact hline

theorem configTurn_decreases : Decreases configTurn (fun s => s.2.rest.length) := by
  rintro ⟨config, file⟩ ⟨config', file'⟩ h
  unfold configTurn at h
  split at h
  · cases h
  · next name after hscan =>
    have hlt := scanWord_shorter hscan
    split at h
    · cases h
      exact Nat.lt_of_le_of_lt length_skipComment hlt
    · split at h
      · next option hoption =>
        have hle := @length_readConfig config after option
        rw [Sum.inl.inj (Option.some.inj h)] at hle
        exact Nat.lt_of_le_of_lt hle hlt
      · cases h
        exact hlt

theorem configLoop_go (h : configTurn (config, file) = some (.inl (config', file'))) :
    configLoop config file = configLoop config' file' := by
  have hlt := configTurn_decreases _ _ h
  unfold configLoop
  rw [whileLoop, h]
  exact whileLoop_stable configTurn_decreases _ _ _ hlt (Nat.lt_succ_self _)

theorem configLoop_leave (h : configTurn (config, file) = some (.inr config')) :
    configLoop config file = some config' := by
  unfold configLoop
  rw [whileLoop, h]

/-- White space between the words does not matter. -/
theorem configLoop_congr (h : scanWord configOptionLength file = scanWord configOptionLength file') :
    configLoop config file = configLoop config file' := by
  have hturn : configTurn (config, file) = configTurn (config, file') := by
    unfold configTurn
    rw [h]
  rcases hnext : configTurn (config, file') with _ | s | c
  · unfold configLoop
    rw [whileLoop, whileLoop, hturn, hnext]
  · rw [configLoop_go hnext, configLoop_go (hturn.trans hnext)]
  · rw [configLoop_leave hnext, configLoop_leave (hturn.trans hnext)]

theorem configLoop_newline :
    configLoop config ⟨newline :: rest, false⟩ = configLoop config ⟨rest, false⟩ :=
  configLoop_congr (scanWord_cons (by decide))

/-! ## A line -/

theorem readConfig_value {option : ConfigOption} {value : ConfigValue}
    (hfits : Config.Fits option value) (hread : value.Readable) :
    readConfig option config ⟨ch ' ' :: (value.text ++ newline :: rest), false⟩
      = (config.set option value, ⟨newline :: rest, false⟩) := by
  unfold readConfig
  cases value with
  | str word =>
    have hword : ConfigWord word := hread
    have hstr : option.isStr = true := hfits
    rw [if_pos hstr, ConfigValue.text, scanWord_cons (by decide), hword.scan (by decide)]
    dsimp only
    rw [hword.cString]
  | int n =>
    have hint : IsInt n := hread
    have hnot : option.isStr = false := hfits
    rw [if_neg (by rw [hnot]; decide), ConfigValue.text, scanInt_cons (by decide),
      scanInt_toString hint (stops_cons (by decide))]
    rfl

/-- An option is read with its value. -/
theorem configLoop_assign {option : ConfigOption} {value : ConfigValue}
    (hfits : Config.Fits option value) (hread : value.Readable) :
    configLoop config ⟨(ConfigLine.assign option value).text ++ rest, false⟩
      = configLoop (config.set option value) ⟨rest, false⟩ := by
  obtain ⟨hname, hcomment⟩ := configOption_word option
  have htext : (ConfigLine.assign option value).text ++ rest
      = option.name ++ ch ' ' :: (value.text ++ newline :: rest) := by
    simp [ConfigLine.text]
  rw [htext]
  refine (configLoop_go ?_).trans configLoop_newline
  unfold configTurn
  dsimp only
  rw [hname.scan (by decide)]
  dsimp only
  rw [if_neg hcomment, hname.cString, configOption_name]
  dsimp only
  rw [readConfig_value hfits hread]

/-- A word that means nothing is passed over. -/
theorem configLoop_word {word : Bytes} (h : UnknownWord word) {c : UInt8} (hc : isspace c = true) :
    configLoop config ⟨word ++ c :: rest, false⟩ = configLoop config ⟨rest, false⟩ := by
  refine (configLoop_go ?_).trans (configLoop_congr (scanWord_cons hc))
  unfold configTurn
  dsimp only
  rw [h.scan hc]
  dsimp only
  rw [if_neg h.comment, h.cString, h.unknown]

theorem configLoop_unknown {name value : Bytes} (hname : UnknownWord name)
    (hvalue : UnknownWord value) :
    configLoop config ⟨(ConfigLine.unknown name value).text ++ rest, false⟩
      = configLoop config ⟨rest, false⟩ := by
  have htext : (ConfigLine.unknown name value).text ++ rest
      = name ++ ch ' ' :: (value ++ newline :: rest) := by
    simp [ConfigLine.text]
  rw [htext, configLoop_word hname (by decide), configLoop_word hvalue (by decide)]

/-- The word that a comment begins with, and what follows it on the line. -/
theorem scanWord_comment {text : Bytes} (h : newline ∉ text) :
    ∃ word more, scanWord configOptionLength ⟨ch '#' :: (text ++ newline :: rest), false⟩
        = (some word, ⟨more ++ newline :: rest, false⟩) ∧
      word.head? = some (ch '#') ∧ newline ∉ more := by
  have hstart : scanSpace ⟨ch '#' :: (text ++ newline :: rest), false⟩
      = ⟨ch '#' :: (text ++ newline :: rest), false⟩ :=
    scanSpace_none (stops_cons (by decide)) (by simp)
  have hbefore := @takeChars_before _ (fun c => !isspace c) configOptionLength (ch '#' :: text)
    rest false newline (by decide)
  have hword : ((ch '#' :: text).takeWhile (fun c => !isspace c)).take configOptionLength
      = ch '#' :: (text.takeWhile (fun c => !isspace c)).take 1022 := by
    rw [List.takeWhile_cons_of_pos (by decide), configOptionLength, List.take_succ_cons]
  rw [hword, List.cons_append] at hbefore
  unfold scanWord
  rw [hstart, hbefore, scanned_of_ne (List.cons_ne_nil _ _)]
  refine ⟨_, _, rfl, rfl, fun hmem => h ?_⟩
  exact List.mem_of_mem_drop hmem

theorem skipComment_rest {more : Bytes} (h : newline ∉ more) :
    configLoop config (skipComment ⟨more ++ newline :: rest, false⟩)
      = configLoop config ⟨rest, false⟩ := by
  have hskip := @takeAll_word _ (· != newline) more (newline :: rest) false
    (fun c hc => bne_iff_ne.mpr fun he => h (he ▸ hc)) (stops_cons (by simp))
  unfold skipComment skipLine
  rw [hskip, List.isEmpty_cons, Bool.or_false]
  cases more with
  | nil => exact configLoop_newline
  | cons c more =>
    rw [scanned_of_ne (List.cons_ne_nil c more)]
    exact (configLoop_congr scanWord_space).trans configLoop_newline

theorem configLoop_comment {text : Bytes} (h : newline ∉ text) :
    configLoop config ⟨(ConfigLine.comment text).text ++ rest, false⟩
      = configLoop config ⟨rest, false⟩ := by
  obtain ⟨word, more, hscan, hhead, hmore⟩ := @scanWord_comment rest text h
  have htext : (ConfigLine.comment text).text ++ rest = ch '#' :: (text ++ newline :: rest) := by
    simp [ConfigLine.text]
  rw [htext]
  refine (configLoop_go ?_).trans (skipComment_rest hmore)
  unfold configTurn
  dsimp only
  rw [hscan]
  dsimp only
  rw [if_pos hhead]

/-- **The file means what its lines mean.** -/
theorem configLoop_lines : ∀ (lines : List ConfigLine) (config : Config),
    (∀ line ∈ lines, line.WellFormed) →
    configLoop config (fopened (lines.flatMap ConfigLine.text))
      = some (lines.foldl ConfigLine.apply config)
  | [], _, _ => rfl
  | line :: lines, config, h => by
    have ih := configLoop_lines lines (line.apply config)
      fun l hl => h l (List.mem_cons_of_mem _ hl)
    have hline := h line List.mem_cons_self
    rw [List.foldl_cons, List.flatMap_cons, ← ih]
    cases line with
    | assign option value => exact configLoop_assign hline.1 hline.2
    | unknown name value => exact configLoop_unknown hline.1 hline.2
    | comment text => exact configLoop_comment hline

/-! ## What has been read -/

/-- The value that is assigned to the option last. -/
def lastAssigned (option : ConfigOption) (lines : List ConfigLine) : Option ConfigValue :=
  (lines.filterMap (ConfigLine.assigned option)).getLast?

theorem get_apply {line : ConfigLine} (h : line.WellFormed) (option : ConfigOption) :
    (line.apply config).get option = (line.assigned option).getD (config.get option) := by
  cases line with
  | assign other value =>
    rw [ConfigLine.apply, ConfigLine.assigned]
    by_cases he : other = option
    · subst he
      rw [if_pos rfl]
      exact Config.get_set h.1
    · rw [if_neg he]
      exact Config.get_set_ne fun h => he h.symm
  | unknown name value => rfl
  | comment text => rfl

theorem get_lines {option : ConfigOption} : ∀ (lines : List ConfigLine) (config : Config),
    (∀ line ∈ lines, line.WellFormed) →
    (lines.foldl ConfigLine.apply config).get option
      = (lastAssigned option lines).getD (config.get option)
  | [], _, _ => rfl
  | line :: lines, config, h => by
    rw [List.foldl_cons, get_lines lines _ fun l hl => h l (List.mem_cons_of_mem _ hl),
      get_apply (h line List.mem_cons_self)]
    unfold lastAssigned
    rw [List.filterMap_cons]
    cases line.assigned option with
    | none => rfl
    | some value =>
      dsimp only
      rw [List.getLast?_cons]
      rfl

theorem filename_set {option : ConfigOption} {value : ConfigValue} :
    (config.set option value).filename = config.filename := by
  cases option <;> cases value <;> rfl

theorem filename_lines : ∀ (lines : List ConfigLine) (config : Config),
    (lines.foldl ConfigLine.apply config).filename = config.filename
  | [], _ => rfl
  | line :: lines, config => by
    rw [List.foldl_cons, filename_lines lines]
    cases line with
    | assign option value => exact filename_set
    | unknown name value => rfl
    | comment text => rfl

/-- **Each option has the value that is assigned to it last, and others keep their values.** -/
theorem config_read_lines {fopen : Bytes → Option InputFile} {stdin : InputFile} {config : Config}
    {lines : List ConfigLine} (hwf : ∀ line ∈ lines, line.WellFormed)
    (hfile : configFile fopen stdin config = some (fopened (lines.flatMap ConfigLine.text))) :
    ∃ config', configRead fopen stdin config = some (config', true) ∧
      config'.filename = config.filename ∧
      ∀ option, config'.get option = (lastAssigned option lines).getD (config.get option) := by
  refine ⟨lines.foldl ConfigLine.apply config, ?_, filename_lines lines config,
    fun option => get_lines lines config hwf⟩
  unfold configRead
  rw [hfile]
  dsimp only
  rw [configLoop_lines lines config hwf]
  rfl

/-- A port that is set twice, between a comment and an option that there is not. -/
def portLines : List ConfigLine :=
  [.comment (lit " the server"), .assign .networkPort (.int 5222),
    .unknown (lit "network.timeout") (lit "30"), .assign .networkHost (.str (lit "localhost")),
    .assign .networkPort (.int 5347)]

theorem config_read_lines_port :
    ∃ config', configRead (fun _ => none) (fopened (portLines.flatMap ConfigLine.text))
        (configInit none) = some (config', true) ∧
      config'.networkPort = 5347 ∧ config'.readerQueue = 1024 := by
  have hwf : ∀ line ∈ portLines, line.WellFormed := by
    simp only [portLines, List.forall_mem_cons]
    refine ⟨by show newline ∉ _; decide, ⟨rfl, by show IsInt _; decide⟩, ⟨?_, ?_⟩, ⟨rfl, ?_⟩,
      ⟨rfl, by show IsInt _; decide⟩, by simp⟩
    · exact ⟨configWord_of_all (by decide) (by decide +kernel) (by decide), by decide +kernel,
        by decide⟩
    · exact ⟨configWord_of_all (by decide) (by decide +kernel) (by decide), by decide +kernel,
        by decide⟩
    · exact configWord_of_all (by decide) (by decide +kernel) (by decide)
  obtain ⟨config', hread, -, hget⟩ := @config_read_lines (fun _ => none)
    (fopened (portLines.flatMap ConfigLine.text)) (configInit none) portLines hwf rfl
  have hport := hget .networkPort
  have hqueue := hget .readerQueue
  exact ⟨config', hread, ConfigValue.int.inj hport, ConfigValue.int.inj hqueue⟩

end Mukite
