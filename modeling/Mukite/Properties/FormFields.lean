import Mukite.Properties.Moves
import Mukite.Properties.NodeTexts
import Mukite.Room.Config

/-!
# The fields of a configuration form

How `room_config_parse` reads a field as `build_room_config` writes it: the name of the option, its
value, choices that are passed over (`configField_turn_text`). The loop over the fields is then a
sequence of changes to the room, one for each field.

The value is any text without `<` and quote characters, which the scanner would take for markup.
-/

namespace Mukite

open TextScan

/-! ## Values -/

/-- The digits that `%d` prints are those that `atoi` reads. -/
theorem leadingDigits_map : ∀ {digits : List Char} {acc : Nat},
    (∀ d ∈ digits, d.isDigit = true) →
      leadingDigits (digits.map ch) acc = Nat.ofDigitChars 10 digits acc
  | [], acc, _ => by rw [Nat.ofDigitChars_nil]; rfl
  | d :: digits, acc, h => by
    have hdigit : 48 ≤ d.toNat ∧ d.toNat ≤ 57 := by
      simpa [Char.isDigit, UInt32.le_iff_toNat_le] using h d List.mem_cons_self
    have hbyte : (ch d).toNat = d.toNat := by
      unfold ch
      rw [UInt8.toNat_ofNat']
      omega
    have hrange : (48 ≤ ch d && ch d ≤ 57) = true := by
      simp only [Bool.and_eq_true, decide_eq_true_eq, UInt8.le_iff_toNat_le]
      rw [hbyte]
      exact hdigit
    have hvalue : (ch d - 48).toNat = d.toNat - 48 := by
      rw [UInt8.toNat_sub_of_le _ _ (by rw [UInt8.le_iff_toNat_le, hbyte]; exact hdigit.1), hbyte]
      rfl
    have ih := @leadingDigits_map digits (acc * 10 + (ch d - 48).toNat)
      fun x hx => h x (List.mem_cons_of_mem d hx)
    rw [List.map_cons, leadingDigits, if_pos hrange, ih, hvalue, Nat.ofDigitChars_cons,
      Nat.mul_comm]
    rfl

/-- **A number is read as it was printed.** -/
theorem atoi_toString {n : Nat} (hn : (n : Int) < 2 ^ 31) : atoi (lit (toString (n : Int))) = n := by
  have htext : lit (toString (n : Int)) = (Nat.toDigits 10 n).map ch := by
    rw [Int.toString_eq_repr, Int.repr_eq_if, if_pos (by omega), Int.toNat_natCast]
    unfold lit
    rw [Nat.toList_repr]
  have hdigits : ∀ d ∈ Nat.toDigits 10 n, d.isDigit = true :=
    fun d hd => Nat.isDigit_of_mem_toDigits (by decide) (by decide) hd
  have hvalue : decimalValue ((Nat.toDigits 10 n).map ch) = n := by
    have hread := @leadingDigits_map (Nat.toDigits 10 n) 0 hdigits
    rw [Nat.ofDigitChars_ten_toDigits] at hread
    obtain ⟨d, digits, hd⟩ := List.exists_cons_of_ne_nil (@Nat.toDigits_ne_nil n 10)
    have hdigit : 48 ≤ d.toNat ∧ d.toNat ≤ 57 := by
      have := hdigits d (by rw [hd]; exact List.mem_cons_self)
      simpa [Char.isDigit, UInt32.le_iff_toNat_le] using this
    have hfirst : ∀ m < 10, isspace (UInt8.ofNat (48 + m)) = false ∧
        (UInt8.ofNat (48 + m) == ch '-') = false ∧ (UInt8.ofNat (48 + m) == ch '+') = false := by
      decide
    obtain ⟨hspace, hminus, hplus⟩ := hfirst (d.toNat - 48) (by omega)
    have hch : ch d = UInt8.ofNat (48 + (d.toNat - 48)) := by
      unfold ch
      congr 1
      omega
    rw [← hch] at hspace hminus hplus
    rw [hd, List.map_cons] at hread ⊢
    unfold decimalValue
    rw [List.dropWhile_cons_of_neg (by rw [hspace]; decide)]
    simp only [hminus, hplus, Bool.false_eq_true, if_false]
    rw [hread]
  unfold atoi clampLong
  rw [htext, hvalue]
  have hclamp : max (-2 ^ 63) (min (2 ^ 63 - 1) (n : Int)) = n := by omega
  rw [hclamp]
  exact cInt_eq ⟨by omega, hn⟩

theorem length_toString {n : Nat} (hn : n < 10 ^ 20) : (lit (toString (n : Int))).length < 21 := by
  have hle : (Nat.toDigits 10 n).length ≤ 20 :=
    (Nat.length_toDigits_le_iff (by decide) (by decide)).mpr hn
  rw [Int.toString_eq_repr, Int.repr_eq_if, if_pos (by omega), Int.toNat_natCast]
  unfold lit
  rw [Nat.toList_repr, List.length_map]
  omega

section Values

variable {mem : Bytes} {s : Span}

theorem SpanIs.btoi_toString {n : Int} (h : SpanIs mem s (lit (toString n))) (h0 : 0 ≤ n)
    (hn : n < 2 ^ 31) : Mukite.btoi mem s = n := by
  obtain ⟨m, rfl⟩ := Int.eq_ofNat_of_zero_le h0
  have hshort := @length_toString m (by omega)
  rw [h.btoi, if_neg (by omega)]
  exact atoi_toString hn

/-- The value of a switch. -/
theorem SpanIs.btoi_pushBool {value : Bool} (h : SpanIs mem s (pushBool value)) :
    (Mukite.btoi mem s != 0) = value := by
  rw [h.btoi]
  cases value <;> decide

/-- The value is the literal. -/
theorem SpanIs.is_lit {literal : String} (h : SpanIs mem s (lit literal)) :
    s.eqLit mem literal = true := by
  rw [h.eqLit]
  exact beq_self_eq_true _

/-- The value is another literal. -/
theorem SpanIs.not_lit {chars others : List Char} (h : SpanIs mem s (lit (String.ofList chars)))
    (hne : (chars.map ch == others.map ch) = false) :
    ¬ s.eqLit mem (String.ofList others) = true := by
  rw [h.eqLit, lit_ofList, lit_ofList, hne]
  decide

end Values

/-! ## A field -/

/-- A field of the form: `BUF_PUSH_FIELD` with its arguments. -/
structure FormField where
  type : String
  label : String
  var : String
  data : Bytes
  options : List (String × String)

namespace FormField

def text (field : FormField) : Bytes :=
  pushField field.type field.label field.var field.data (choiceOptions field.options)

/-- What is written in literals has no markup, and the value is escaped. -/
structure Readable (field : FormField) : Prop where
  type : PlainText (lit field.type)
  label : PlainText (lit field.label)
  var : PlainText (lit field.var)
  data : Escaped field.data
  options : ∀ option ∈ field.options, PlainText (lit option.1) ∧ PlainText (lit option.2)

/-- What the option of a field does to a room, wherever its name and its value stand. -/
def Sets (acl : Int) (field : FormField) (act : Room → Room) : Prop :=
  ∀ mem var value room, SpanIs mem var (lit field.var) → SpanIs mem value field.data →
    roomConfigOptionSet room mem var value acl = some (act room)

end FormField

/-- An attribute as the form has it. -/
def formAttr (name value : String) : AttrText where
  lead := lit " "
  name := lit name
  gap := lit "="
  quote := quote1
  value := lit value

theorem formAttr_scannable {chars : List Char} {value : String}
    (hname : (chars.map ch).all nameChar = true ∧ chars ≠ []) (hvalue : PlainText (lit value)) :
    (formAttr (String.ofList chars) value).Scannable := by
  have hchar : ∀ c ∈ lit (String.ofList chars), whitespace c = false ∧ c ∉ lit "=</>" := by
    intro c hc
    rw [lit_ofList] at hc
    exact not_mem_of_nameChar (List.all_eq_true.mp hname.1 c hc)
  have hlead : ∀ c ∈ lit " ", whitespace c = true := List.all_eq_true.mp (by decide)
  have hgap : ∀ c ∈ lit "=", (c != quote2 && c != quote1) = true :=
    List.all_eq_true.mp (by decide)
  refine ⟨hlead, fun c hc => ?_, fun c hc => ?_, ⟨ch '=', rfl, by decide⟩, hgap, rfl,
    fun c hc => ?_⟩
  · obtain ⟨d, rest, hd⟩ := List.exists_cons_of_ne_nil hname.2
    have hmem : c ∈ lit (String.ofList chars) := by
      have htext : (formAttr (String.ofList chars) value).name = ch d :: rest.map ch := by
        show lit (String.ofList chars) = _
        rw [lit_ofList, hd, List.map_cons]
      rw [htext] at hc
      cases hc
      rw [lit_ofList, hd]
      exact List.mem_cons_self
    obtain ⟨hwhite, hmark⟩ := hchar c hmem
    exact ⟨hwhite, fun he => hmark (he ▸ by decide), fun he => hmark (he ▸ by decide)⟩
  · obtain ⟨hwhite, hmark⟩ := hchar c hc
    have hne : c ≠ ch '=' := fun he => hmark (he ▸ by decide)
    simp [hwhite, hne]
  · have hne : c ≠ quote1 := fun he => hvalue.not_quoted (he ▸ hc)
    exact bne_iff_ne.mpr hne

/-- The nodes in a field: the value, and the choices. -/
def valueText (data : Bytes) : Bytes := lit "<value>" ++ (data ++ lit "</value>")

def choiceText (option : String × String) : Bytes :=
  lit ("<option label='" ++ option.1 ++ "'><value>" ++ option.2 ++ "</value></option>")

section Texts

variable {field : FormField}

theorem valueText_node {data : Bytes} (h : Escaped data) :
    NamedNode (lit "value") (valueText data) where
  whole := by
    have hopen : Moves (between 0 none) (between 1 none) (lit "<value>") := moves_lit (by decide)
    unfold valueText
    rw [← List.append_assoc]
    exact wholeNode_of_moves (hopen.append (moves_escaped h)) (by decide)
  chars := by decide
  start := ⟨ch '>', data ++ lit "</value>", rfl, by decide⟩

theorem choiceText_node {option : String × String}
    (h : PlainText (lit option.1) ∧ PlainText (lit option.2)) :
    NamedNode (lit "option") (choiceText option) where
  whole := by
    have hopen : Moves (between 0 none) (inValue 1) (lit "<option label='") := moves_lit (by decide)
    have hvalue : Moves (inValue 1) (between 2 none) (lit "'><value>") := moves_lit (by decide)
    have hend : lit "</value></option>" = lit "</value>" ++ lit "</option>" := by decide
    have hclose : Moves (between 2 none) (between 1 none) (lit "</value>") := moves_lit (by decide)
    unfold choiceText
    simp only [lit_append]
    rw [hend, ← List.append_assoc]
    exact wholeNode_of_moves (((((hopen.append (moves_value h.1)).append hvalue).append
      (moves_escaped h.2.escaped)).append hclose)) (by decide)
  chars := by decide
  start := by
    refine ⟨ch ' ', lit "label='" ++ (lit option.1 ++ lit "'><value>" ++ lit option.2 ++
      lit "</value></option>"), ?_, by decide⟩
    have hopen : lit "<option label='" = ch '<' :: (lit "option" ++ ch ' ' :: lit "label='") := by
      decide
    unfold choiceText
    simp only [lit_append]
    rw [hopen]
    simp

/-- A field from the name of its node on. -/
theorem FormField.text_eq (field : FormField) : field.text = ch '<' :: (lit "field" ++
    (attrsText [formAttr "type" field.type, formAttr "label" field.label] ++
      ((formAttr "var" field.var).text ++ ch '>' :: (valueText field.data ++
        (field.options.map choiceText).flatten ++ lit "</field>")))) := by
  have htype : lit "<field type='" = ch '<' :: (lit "field" ++ (lit " " ++ (lit "type" ++
      (lit "=" ++ [quote1])))) := by decide
  have hlabel : lit "' label='" = quote1 :: (lit " " ++ (lit "label" ++ (lit "=" ++ [quote1]))) := by
    decide
  have hvar : lit "' var='" = quote1 :: (lit " " ++ (lit "var" ++ (lit "=" ++ [quote1]))) := by
    decide
  have hvalue : lit "'><value>" = quote1 :: ch '>' :: lit "<value>" := by decide
  have hhead : lit ("<field type='" ++ field.type ++ "' label='" ++ field.label ++ "' var='" ++
      field.var ++ "'><value>") = ch '<' :: (lit "field" ++
        (attrsText [formAttr "type" field.type, formAttr "label" field.label] ++
          ((formAttr "var" field.var).text ++ ch '>' :: lit "<value>"))) := by
    simp only [lit_append]
    rw [htype, hlabel, hvar, hvalue]
    unfold attrsText formAttr AttrText.text AttrText.rest
    simp only [List.map_cons, List.map_nil, List.flatten_cons, List.flatten_nil,
      List.append_assoc, List.cons_append, List.nil_append, List.append_nil]
  show lit _ ++ field.data ++ lit "</value>" ++ (field.options.map choiceText).flatten ++
    lit "</field>" = _
  rw [hhead]
  unfold valueText
  simp only [List.append_assoc, List.cons_append]

theorem FormField.Readable.node (h : field.Readable) : NamedNode (lit "field") field.text where
  whole := by
    have hopen : Moves (between 0 none) (inValue 1) (lit "<field type='") := moves_lit (by decide)
    have hlabel : Moves (inValue 1) (inValue 1) (lit "' label='") := moves_lit (by decide)
    have hvar : Moves (inValue 1) (inValue 1) (lit "' var='") := moves_lit (by decide)
    have hvalue : Moves (inValue 1) (between 2 none) (lit "'><value>") := moves_lit (by decide)
    have hend : Moves (between 2 none) (between 1 none) (lit "</value>") := moves_lit (by decide)
    have hchoices : Moves (between 1 none) (between 1 none) (choiceOptions field.options) := by
      refine moves_flatten fun part hpart => ?_
      obtain ⟨option, hoption, rfl⟩ := List.mem_map.mp hpart
      have hchoice : Moves (between 1 none) (inValue 2) (lit "<option label='") :=
        moves_lit (by decide)
      have hinner : Moves (inValue 2) (between 3 none) (lit "'><value>") := moves_lit (by decide)
      have hclose : Moves (between 3 none) (between 1 none) (lit "</value></option>") :=
        moves_lit (by decide)
      obtain ⟨hlabel, htext⟩ := h.options option hoption
      simp only [lit_append]
      exact (((hchoice.append (moves_value hlabel)).append hinner).append
        (moves_escaped htext.escaped)).append hclose
    unfold FormField.text pushField
    simp only [lit_append]
    exact wholeNode_of_moves ((((((((hopen.append (moves_value h.type)).append hlabel).append
      (moves_value h.label)).append hvar).append (moves_value h.var)).append hvalue).append
      (moves_escaped h.data)).append hend |>.append hchoices) (by decide)
  chars := by decide
  start := by
    rw [field.text_eq]
    exact ⟨ch ' ', _, rfl, by decide⟩

end Texts

/-! ## The loops -/

section Turns

variable {mem : Bytes} {acl : Int} {var : Span} {field : FormField} {act : Room → Room}

/-- A `<value/>` sets the option. -/
theorem turns_value {data : Bytes} (h : Escaped data)
    (hset : ∀ value room, SpanIs mem value data →
      roomConfigOptionSet room mem var value acl = some (act room)) :
    Turns mem (fun room nodes => (configValue mem acl var room nodes).map .inl)
      (valueText data, fun room => some (act room)) := by
  have hnode := valueText_node h
  have hlen : (valueText data).length = 7 + data.length + 8 := by
    unfold valueText
    rw [List.length_append, List.length_append, ← Nat.add_assoc]
    rfl
  refine ⟨by dsimp only; omega, fun k stop rest room hmem hstop => ?_⟩
  dsimp only at hmem hstop
  refine ⟨_, hnode.nextSibling hmem hstop, rfl, ?_⟩
  have hname : (nodeAt (lit "value") (valueText data) k stop).nodeName.eqLit mem "value" = true :=
    (hnode.reads_name hmem).is_lit
  have hopen : valueText data = lit "<value" ++ (ch '>' :: (data ++ lit "</value>")) := rfl
  have hattrs : mem.drop (k + 6) = ch '>' :: (data ++ (lit "</value>" ++ rest)) := by
    refine @drop_add_of_drop mem (lit "<value") _ k ?_
    rw [hmem, hopen]
    simp only [List.append_assoc, List.cons_append]
  have hvalue : SpanIs mem { data := k + 7, stop := k + 7 + data.length } data :=
    spanIs_of_drop (drop_succ_of_drop hattrs)
  have hend : k + (valueText data).length - endTagSize "value" = k + 7 + data.length := by
    rw [hlen, show endTagSize "value" = 8 from rfl]
    omega
  have hdata : (nodeAt (lit "value") (valueText data) k stop).node.data = k + 6 := rfl
  have hstop' : (nodeAt (lit "value") (valueText data) k stop).node.stop
      = k + (valueText data).length := rfl
  show (configValue mem acl var room (nodeAt (lit "value") (valueText data) k stop)).map Sum.inl
    = some (.inl (act room))
  unfold configValue
  rw [hname, hdata, hstop', skipAttrs_end hattrs]
  simp only [Bool.not_true, Bool.false_eq_true, if_false, Option.bind_eq_bind, Option.bind_some]
  rw [hend, hset _ room hvalue]
  rfl

/-- A choice is passed over, with the value in it. -/
theorem turns_choice {option : String × String}
    (h : PlainText (lit option.1) ∧ PlainText (lit option.2)) :
    Turns mem (fun room nodes => (configValue mem acl var room nodes).map .inl)
      (choiceText option, some) := by
  have hnode := choiceText_node h
  refine ⟨List.length_pos_iff.mpr hnode.whole.ne_nil, fun k stop rest room hmem hstop => ?_⟩
  dsimp only at hmem hstop
  refine ⟨_, hnode.nextSibling hmem hstop, rfl, ?_⟩
  have hname : (nodeAt (lit "option") (choiceText option) k stop).nodeName.eqLit mem "value"
      = false := by
    rw [(hnode.reads_name hmem).eqLit]
    decide
  show (configValue mem acl var room (nodeAt (lit "option") (choiceText option) k stop)).map Sum.inl
    = some (.inl room)
  unfold configValue
  rw [hname]
  rfl

/-- The nodes in a field, with what they do. -/
def FormField.turns (field : FormField) (act : Room → Room) :
    List (Bytes × (Room → Option Room)) :=
  (valueText field.data, fun room => some (act room)) ::
    field.options.map (fun option => (choiceText option, some))

theorem turnsText_field : turnsText (field.turns act)
    = valueText field.data ++ (field.options.map choiceText).flatten := by
  unfold turnsText FormField.turns
  rw [List.map_cons, List.flatten_cons, List.map_map]
  rfl

theorem runTurns_field (room : Room) : runTurns (field.turns act) room = some (act room) := by
  have hchoices : ∀ (options : List (String × String)) (r : Room),
      runTurns (options.map (fun option => (choiceText option, some))) r = some r := by
    intro options
    induction options with
    | nil => exact fun _ => rfl
    | cons option options ih => exact fun r => ih r
  exact hchoices field.options (act room)

/-- **A field sets its option.** -/
theorem turns_field (h : field.Readable) (hset : field.Sets acl act) :
    Turns mem (fun room nodes => (configField mem acl room nodes).map .inl)
      (field.text, fun room => some (act room)) := by
  have hnode := h.node
  refine ⟨List.length_pos_iff.mpr hnode.whole.ne_nil, fun k stop rest room hmem hstop => ?_⟩
  dsimp only at hmem hstop
  refine ⟨_, hnode.nextSibling hmem hstop, rfl, ?_⟩
  have hname : (nodeAt (lit "field") field.text k stop).nodeName.eqLit mem "field" = true :=
    (hnode.reads_name hmem).is_lit
  have hdata : (nodeAt (lit "field") field.text k stop).node.data = k + 6 := rfl
  have hstop' : (nodeAt (lit "field") field.text k stop).node.stop = k + field.text.length := rfl
  -- the attributes: `var` is the last of them
  have hattrs : mem.drop (k + 6) = attrsText [formAttr "type" field.type,
      formAttr "label" field.label] ++ ((formAttr "var" field.var).text ++ ch '>' ::
        (turnsText (field.turns act) ++ (lit "</field>" ++ rest))) := by
    refine @drop_add_of_drop mem (lit "<field") _ k ?_
    rw [hmem, field.text_eq, turnsText_field, show lit "<field" = ch '<' :: lit "field" from rfl]
    simp only [List.append_assoc, List.cons_append]
  have hothers : ∀ b ∈ [formAttr "type" field.type, formAttr "label" field.label],
      b.Scannable ∧ b.name ≠ lit "var" := by
    intro b hb
    rcases List.mem_cons.mp hb with rfl | hb
    · exact ⟨formAttr_scannable (by decide) h.type,
        show lit "type" ≠ lit "var" by decide⟩
    · rw [List.mem_singleton.mp hb]
      exact ⟨formAttr_scannable (by decide) h.label,
        show lit "label" ≠ lit "var" by decide⟩
  have hskip := skiptoAttr_text (formAttr_scannable (by decide) h.var) rfl hothers hattrs
  have hvar := drop_add_of_drop hattrs
  have hreads := spanIs_value hvar
  generalize hpos : k + 6 + (attrsText
    [formAttr "type" field.type, formAttr "label" field.label]).length = pos at hskip hvar hreads
  have hafter := drop_add_of_drop hvar
  have hinner := drop_succ_of_drop hafter
  -- the nodes
  have hturns : ∀ item ∈ field.turns act, Turns mem (fun room nodes =>
      (configValue mem acl ((formAttr "var" field.var).spans pos).value room nodes).map .inl)
        item := by
    intro item hitem
    rcases List.mem_cons.mp hitem with rfl | hitem
    · exact turns_value h.data fun value room hv => hset mem _ value room hreads hv
    · obtain ⟨option, hoption, rfl⟩ := List.mem_map.mp hitem
      exact turns_choice (h.options option hoption)
  have htail : skipNodeLoop {} 0 (lit "</field>") = none := by decide
  have hloop := siblingLoop_turns hturns htail hinner (runTurns_field room)
  have hstop'' : k + field.text.length = pos + (formAttr "var" field.var).text.length + 1 +
      (turnsText (field.turns act)).length + (lit "</field>").length := by
    rw [field.text_eq, turnsText_field, ← hpos]
    simp only [List.length_cons, List.length_append]
    rw [show (lit "field").length = 5 from rfl]
    omega
  show (configField mem acl room (nodeAt (lit "field") field.text k stop)).map Sum.inl
    = some (.inl (act room))
  unfold configField
  rw [hname, hdata, hstop', hskip]
  simp only [Bool.not_true, Bool.false_eq_true, if_false, Option.bind_eq_bind, Option.bind_some]
  rw [skipAttrs_end hafter]
  simp only [Option.bind_some, Bool.not_true, Bool.false_eq_true, if_false]
  rw [hstop'', hloop]
  rfl

end Turns

end Mukite
