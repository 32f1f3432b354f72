import Mathlib.Data.List.Basic

/-!
# What a reader of XML finds at the top of a text

A text is read character by character. A tag opens with `<` and ends with the first `>` that does
not stand in quotes; quotes count in tags only. Comments, CDATA sections and processing instructions
end with a sign of their own, whatever is in them. `run` says where the reader is after a text, and
which elements have started at the top, each given by the text of its tag.

`namespaceOf` is the namespace that a tag gives its element: that of the declaration for its label
(what stands before the colon in its name), in the tag itself or in the tag around it.
-/

namespace XmlReader

abbrev Text := List UInt8

def chr (c : Char) : UInt8 := UInt8.ofNat c.toNat

def chars (s : String) : Text := s.toList.map chr

def white (c : UInt8) : Bool := c == 32 || c == 9 || c == 10 || c == 13

def quotes (c : UInt8) : Bool := c == 34 || c == 39

/-! ## Reading -/

/-- Where a reader is. -/
structure Reader where
  /-- how many elements are open -/
  depth : Nat
  /-- what has been read of a tag, and the quote that is open in it -/
  tag : Option (Text × Option UInt8)
deriving DecidableEq

/-- At the top, in no tag. -/
def atTop : Reader where
  depth := 0
  tag := none

/-- A comment, a CDATA section or a processing instruction starts so. -/
def special (text : Text) : Bool := text.head? == some (chr '!') || text.head? == some (chr '?')

/-- It may end at a `>`. -/
def ended (text : Text) : Bool :=
  if (chars "![CDATA[").isPrefixOf text then (chars "]]").isSuffixOf text
  else if (chars "!--").isPrefixOf text then (chars "--").isSuffixOf (text.drop 3)
  else if text.head? == some (chr '?') then (chars "?").isSuffixOf (text.drop 1)
  else true

/-- At the end of a tag: the depth behind it, and the element that starts with it at the top. -/
def close (depth : Nat) (text : Text) : Nat × Option Text :=
  if text.head? = some (chr '/') then (depth - 1, none)
  else
    (if text.getLast? = some (chr '/') then depth else depth + 1,
      if depth = 0 then some text else none)

/-- Read one character. -/
def step (r : Reader) (c : UInt8) : Reader × Option Text :=
  match r.tag with
  | none => (if c = chr '<' then { r with tag := some ([], none) } else r, none)
  | some (text, some quote) =>
    ({ r with tag := some (text ++ [c], if c = quote then none else some quote) }, none)
  | some (text, none) =>
    if special text then
      (if c = chr '>' ∧ ended text = true then { r with tag := none }
        else { r with tag := some (text ++ [c], none) }, none)
    else if c = chr '>' then
      ({ depth := (close r.depth text).1, tag := none }, (close r.depth text).2)
    else ({ r with tag := some (text ++ [c], if quotes c then some c else none) }, none)

/-- Where the reader is after a text, and the elements that have started at the top. -/
def run (r : Reader) : Text → Reader × List Text
  | [] => (r, [])
  | c :: rest =>
    ((run (step r c).1 rest).1, (step r c).2.toList ++ (run (step r c).1 rest).2)

/-- The elements at the top of a text, by their tags. -/
def elements (text : Text) : List Text := (run atTop text).2

/-- A text with as many ends as starts. -/
def Closed (text : Text) : Prop := (run atTop text).1 = atTop

instance (text : Text) : Decidable (Closed text) := inferInstanceAs (Decidable (_ = _))

/-! ## Names and namespaces -/

/-- A character of the name that a tag starts with. -/
def inName (c : UInt8) : Bool := !white c && c != chr '/'

def tagName (text : Text) : Text := text.takeWhile inName

/-- The attributes in what is left of a tag; `name` is what has been read of a name, and `value` of
a value in quotes. -/
def attrsFrom (name : Text) (value : Option (UInt8 × Text)) : Text → List (Text × Text)
  | [] => []
  | c :: rest =>
    match value with
    | some (quote, read) =>
      if c = quote then (name, read) :: attrsFrom [] none rest
      else attrsFrom name (some (quote, read ++ [c])) rest
    | none =>
      if quotes c then attrsFrom name (some (c, [])) rest
      else if white c || c == chr '=' then attrsFrom name none rest
      else attrsFrom (name ++ [c]) none rest

/-- The attributes of a tag, names with values as they are written. -/
def attrs (text : Text) : List (Text × Text) := attrsFrom [] none (text.dropWhile inName)

/-- What a number in a reference is in base `base`. -/
def number (base : Nat) (digits : Text) : Nat :=
  digits.foldl (fun n c => n * base +
    (if c < 58 then c.toNat - 48 else if c < 91 then c.toNat - 55 else c.toNat - 87)) 0

/-- What a reference stands for, if that is a character of one byte. -/
def referred (name : Text) : Text :=
  if name = chars "lt" then [chr '<']
  else if name = chars "gt" then [chr '>']
  else if name = chars "amp" then [chr '&']
  else if name = chars "quot" then [34]
  else if name = chars "apos" then [39]
  else if (chars "#x").isPrefixOf name then [UInt8.ofNat (number 16 (name.drop 2))]
  else if (chars "#").isPrefixOf name then [UInt8.ofNat (number 10 (name.drop 1))]
  else chr '&' :: name ++ [chr ';']

/-- A value without its references; `name` is what has been read of one. -/
def resolved (name : Option Text) : Text → Text
  | [] => name.elim [] (chr '&' :: ·)
  | c :: rest =>
    match name with
    | some read =>
      if c = chr ';' then referred read ++ resolved none rest
      else resolved (some (read ++ [c])) rest
    | none => if c = chr '&' then resolved (some []) rest else c :: resolved none rest

/-- What stands before the colon in a name. -/
def label (name : Text) : Text :=
  if chr ':' ∈ name then name.takeWhile (· != chr ':') else []

/-- What stands behind it. -/
def localPart (name : Text) : Text :=
  if chr ':' ∈ name then (name.dropWhile (· != chr ':')).drop 1 else name

/-- The attribute that declares what a label means. -/
def declares (label : Text) : Text :=
  if label = [] then chars "xmlns" else chars "xmlns:" ++ label

/-- The namespace of an element, in a tag with the attributes `around`. -/
def namespaceOf (around : List (Text × Text)) (text : Text) : Option Text :=
  ((attrs text ++ around).find? (fun a => a.1 == declares (label (tagName text)))).map
    (fun a => resolved none a.2)

/-! ## Rules -/

variable {r : Reader} {u v : Text} {c : UInt8}

@[simp] theorem run_nil : run r [] = (r, []) := rfl

theorem run_append : run r (u ++ v)
    = ((run (run r u).1 v).1, (run r u).2 ++ (run (run r u).1 v).2) := by
  induction u generalizing r with
  | nil => rfl
  | cons c rest ih => simp [run, ih]

/-- **Behind a closed text the reader starts anew.** -/
theorem elements_append (h : Closed u) : elements (u ++ v) = elements u ++ elements v := by
  unfold elements
  rw [run_append, show (run atTop u).1 = atTop from h]

@[simp] theorem elements_nil : elements [] = [] := rfl

/-- Character data without a bracket is passed over. -/
theorem run_plain {depth : Nat} (h : chr '<' ∉ u) :
    run { depth := depth, tag := none } u = ({ depth := depth, tag := none }, []) := by
  induction u with
  | nil => rfl
  | cons c rest ih =>
    rw [List.mem_cons, not_or] at h
    have hstep : step { depth := depth, tag := none } c
        = ({ depth := depth, tag := none }, none) := by
      unfold step
      rw [if_neg (Ne.symm h.1)]
    rw [run, hstep, ih h.2]
    rfl

/-! ## What stands in a tag -/

/-- A text that does not end a tag: its quotes are closed, and outside of them there is no `>`. -/
inductive InTag : Text → Prop
  | nil : InTag []
  | char {c : UInt8} {u : Text} (hquote : quotes c = false) (hend : c ≠ chr '>') (h : InTag u) :
      InTag (c :: u)
  | value {quote : UInt8} {u v : Text} (hquote : quotes quote = true) (hvalue : quote ∉ u)
      (h : InTag v) : InTag (quote :: (u ++ quote :: v))

theorem InTag.append (h : InTag u) (h' : InTag v) : InTag (u ++ v) := by
  induction h with
  | nil => exact h'
  | char hquote hend _ ih => exact .char hquote hend ih
  | value hquote hvalue _ ih =>
    rw [List.cons_append, List.append_assoc]
    exact .value hquote hvalue ih

theorem InTag.of_all (h : ∀ c ∈ u, quotes c = false ∧ c ≠ chr '>') : InTag u := by
  induction u with
  | nil => exact .nil
  | cons c rest ih =>
    obtain ⟨hquote, hend⟩ := h c List.mem_cons_self
    exact .char hquote hend (ih fun d hd => h d (List.mem_cons_of_mem _ hd))

/-- What is special shows at the first character. -/
theorem special_append (h : special (u ++ v) = false) : special u = false := by
  cases u with
  | nil => rfl
  | cons c rest => exact h

variable {depth : Nat} {text : Text} {quote : UInt8}

/-- In a value the reader looks for the quote that ends it. -/
theorem run_value (h : quote ∉ u) : run { depth := depth, tag := some (text, some quote) } u
    = ({ depth := depth, tag := some (text ++ u, some quote) }, []) := by
  induction u generalizing text with
  | nil => rw [List.append_nil]; rfl
  | cons c rest ih =>
    rw [List.mem_cons, not_or] at h
    have hstep : step { depth := depth, tag := some (text, some quote) } c
        = ({ depth := depth, tag := some (text ++ [c], some quote) }, none) := by
      unfold step
      dsimp only
      rw [if_neg (Ne.symm h.1)]
    rw [run, hstep, ih h.2, List.append_assoc]
    rfl

theorem step_inTag (hs : special text = false) (hend : c ≠ chr '>') :
    step { depth := depth, tag := some (text, none) } c
      = ({ depth := depth, tag := some (text ++ [c], if quotes c then some c else none) },
        none) := by
  unfold step
  dsimp only
  rw [if_neg (by rw [hs]; exact Bool.false_ne_true), if_neg hend]

/-- **A text that does not end a tag is read into it.** -/
theorem InTag.run (h : InTag u) (hs : special (text ++ u) = false) :
    XmlReader.run { depth := depth, tag := some (text, none) } u
      = ({ depth := depth, tag := some (text ++ u, none) }, []) := by
  induction h generalizing text with
  | nil => rw [List.append_nil]; rfl
  | @char c u hquote hend _ ih =>
    rw [List.append_cons] at hs
    rw [XmlReader.run, step_inTag (special_append (special_append hs)) hend, hquote,
      if_neg Bool.false_ne_true, ih hs]
    simp
  | @value quote u v hquote hvalue _ ih =>
    have hend : quote ≠ chr '>' := by
      rintro rfl
      exact absurd hquote (by decide)
    rw [List.append_cons] at hs
    have hs' : special (text ++ [quote] ++ u ++ [quote] ++ v) = false := by
      simpa using hs
    have hclose : step { depth := depth, tag := some (text ++ [quote] ++ u, some quote) } quote
        = ({ depth := depth, tag := some (text ++ [quote] ++ u ++ [quote], none) }, none) := by
      unfold step
      dsimp only
      rw [if_pos rfl]
    rw [XmlReader.run, step_inTag (special_append (special_append hs)) hend, hquote, if_pos rfl,
      run_append, run_value hvalue, XmlReader.run, hclose, ih hs']
    simp

/-- **A tag is read up to its end.** -/
theorem run_markup (h : InTag u) (hs : special u = false) :
    run { depth := depth, tag := none } (chr '<' :: (u ++ [chr '>']))
      = ({ depth := (close depth u).1, tag := none }, (close depth u).2.toList) := by
  have hopen : step { depth := depth, tag := none } (chr '<')
      = ({ depth := depth, tag := some ([], none) }, none) := by
    unfold step
    rw [if_pos rfl]
  have hend : step { depth := depth, tag := some (u, none) } (chr '>')
      = ({ depth := (close depth u).1, tag := none }, (close depth u).2) := by
    unfold step
    dsimp only
    rw [if_neg (by rw [hs]; exact Bool.false_ne_true), if_pos rfl]
  rw [run, hopen, run_append, @InTag.run u depth [] h hs, List.nil_append, run, hend]
  simp

theorem run_start (h : InTag u) (hs : special u = false) (hfirst : u.head? ≠ some (chr '/'))
    (hlast : u.getLast? ≠ some (chr '/')) :
    run { depth := depth, tag := none } (chr '<' :: (u ++ [chr '>']))
      = ({ depth := depth + 1, tag := none }, if depth = 0 then [u] else []) := by
  rw [run_markup h hs]
  unfold close
  rw [if_neg hfirst, if_neg hlast]
  split <;> rfl

theorem run_empty (h : InTag u) (hs : special (u ++ [chr '/']) = false)
    (hfirst : (u ++ [chr '/']).head? ≠ some (chr '/')) :
    run { depth := depth, tag := none } (chr '<' :: (u ++ [chr '/', chr '>']))
      = ({ depth := depth, tag := none }, if depth = 0 then [u ++ [chr '/']] else []) := by
  have hslash : InTag (u ++ [chr '/']) := h.append (.char (by decide) (by decide) .nil)
  have hmarkup := @run_markup _ depth hslash hs
  rw [List.append_assoc] at hmarkup
  rw [show [chr '/', chr '>'] = [chr '/'] ++ [chr '>'] from rfl, hmarkup]
  unfold close
  rw [if_neg hfirst, if_pos (by simp)]
  split <;> rfl

theorem run_stop (h : InTag u) :
    run { depth := depth, tag := none } (chr '<' :: chr '/' :: (u ++ [chr '>']))
      = ({ depth := depth - 1, tag := none }, []) := by
  have hstop : InTag (chr '/' :: u) := .char (by decide) (by decide) h
  have hmarkup := @run_markup _ depth hstop rfl
  rw [List.cons_append] at hmarkup
  rw [hmarkup]
  unfold close
  rw [if_pos List.head?_cons]
  rfl

/-- What has started in a part of a text has started in the text. -/
theorem run_take (n : Nat) : (run r (u.take n)).2 <+: (run r u).2 := by
  have happend := @run_append r (u.take n) (u.drop n)
  rw [List.take_append_drop] at happend
  rw [happend]
  exact List.prefix_append _ _

theorem elements_take (n : Nat) : elements (u.take n) <+: elements u := run_take n

/-! ## What a tag says -/

variable {name value : Text}

/-- What stands between attributes is passed over. -/
theorem attrsFrom_gap (h : ∀ c ∈ u, quotes c = false ∧ (white c || c == chr '=') = true) :
    attrsFrom name none (u ++ v) = attrsFrom name none v := by
  induction u with
  | nil => rfl
  | cons c rest ih =>
    obtain ⟨hquote, hgap⟩ := h c List.mem_cons_self
    rw [List.cons_append, attrsFrom, if_neg (by rw [hquote]; exact Bool.false_ne_true), if_pos hgap,
      ih fun d hd => h d (List.mem_cons_of_mem _ hd)]

/-- The characters of a name are put together. -/
theorem attrsFrom_name (h : ∀ c ∈ u, quotes c = false ∧ (white c || c == chr '=') = false) :
    attrsFrom name none (u ++ v) = attrsFrom (name ++ u) none v := by
  induction u generalizing name with
  | nil => rw [List.append_nil]; rfl
  | cons c rest ih =>
    obtain ⟨hquote, hchar⟩ := h c List.mem_cons_self
    rw [List.cons_append, attrsFrom, if_neg (by rw [hquote]; exact Bool.false_ne_true),
      if_neg (by rw [hchar]; exact Bool.false_ne_true),
      ih fun d hd => h d (List.mem_cons_of_mem _ hd), List.append_assoc]
    rfl

/-- A value ends at its quote. -/
theorem attrsFrom_value (h : quote ∉ u) :
    attrsFrom name (some (quote, value)) (u ++ quote :: v)
      = (name, value ++ u) :: attrsFrom [] none v := by
  induction u generalizing value with
  | nil => rw [List.nil_append, attrsFrom, if_pos rfl, List.append_nil]
  | cons c rest ih =>
    rw [List.mem_cons, not_or] at h
    rw [List.cons_append, attrsFrom, if_neg (Ne.symm h.1), ih h.2, List.append_assoc]
    rfl

/-- Without a value there is no attribute. -/
theorem attrsFrom_nil (h : ∀ c ∈ u, quotes c = false) : attrsFrom name none u = [] := by
  induction u generalizing name with
  | nil => rfl
  | cons c rest ih =>
    have hrest := fun d hd => h d (List.mem_cons_of_mem c hd)
    rw [attrsFrom, if_neg (by rw [h c List.mem_cons_self]; exact Bool.false_ne_true)]
    split
    · exact ih hrest
    · exact ih hrest

/-- A name ends where something else begins. -/
theorem inName_split (h : ∀ c ∈ u, inName c = true) (hv : ∀ c ∈ v.head?, inName c = false) :
    tagName (u ++ v) = u ∧ (u ++ v).dropWhile inName = v := by
  unfold tagName
  rw [List.takeWhile_append_of_pos h, List.dropWhile_append_of_pos h]
  cases v with
  | nil => exact ⟨List.append_nil u, rfl⟩
  | cons c rest =>
    have hc := hv c rfl
    rw [List.takeWhile_cons_of_neg (by rw [hc]; exact Bool.false_ne_true),
      List.dropWhile_cons_of_neg (by rw [hc]; exact Bool.false_ne_true)]
    exact ⟨List.append_nil u, rfl⟩

/-- A value without references is what it stands for. -/
theorem resolved_plain (h : chr '&' ∉ u) : resolved none u = u := by
  induction u with
  | nil => rfl
  | cons c rest ih =>
    rw [List.mem_cons, not_or] at h
    rw [resolved, if_neg (Ne.symm h.1), ih h.2]

/-- A name without a label has the namespace of `xmlns`. -/
theorem namespaceOf_plain {around : List (Text × Text)} (h : chr ':' ∉ tagName text) :
    localPart (tagName text) = tagName text ∧ namespaceOf around text
      = ((attrs text ++ around).find? (fun a => a.1 == chars "xmlns")).map
          (fun a => resolved none a.2) := by
  have hlabel : label (tagName text) = [] := if_neg h
  refine ⟨if_neg h, ?_⟩
  unfold namespaceOf declares
  rw [hlabel, if_pos rfl]

end XmlReader
