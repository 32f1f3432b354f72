import Mukite.Properties.StartTag

/-!
# XML as text

What stands inside of an element is a tree (`XmlContent`): character data, elements without
content, elements with content, each followed by the rest of it. Its text is also a sequence of
tokens, the tags and the runs of character data in their order (`XmlContent.tokens`).

CDATA sections, comments and processing instructions are left out. What is called well formed here
is wider than XML: it says which characters end a name, a value or a run of character data. What is
called printed is what a server writes: markup is escaped in character data, while a value may hold
anything but its quote character.
-/

namespace Mukite

/-- What a tag says: the name, the attributes and the white space behind them. -/
structure XmlTag where
  name : Bytes
  attrs : List AttrText
  space : Bytes

/-- Character data and elements, in the order in which they stand. -/
inductive XmlContent
  | nil
  | chars (run : Bytes) (rest : XmlContent)
  | empty (tag : XmlTag) (rest : XmlContent)
  | node (tag : XmlTag) (inner : XmlContent) (space : Bytes) (rest : XmlContent)

/-- One element; `space` is the white space in its end tag. -/
inductive XmlElement
  | empty (tag : XmlTag)
  | node (tag : XmlTag) (inner : XmlContent) (space : Bytes)

/-- Tags and runs of character data. -/
inductive XmlToken
  | chars (run : Bytes)
  | start (tag : XmlTag)
  | stop (name space : Bytes)
  | empty (tag : XmlTag)

/-! ## Texts -/

/-- What stands between the brackets of a tag. -/
def XmlTag.text (tag : XmlTag) : Bytes := tag.name ++ (attrsText tag.attrs ++ tag.space)

def XmlToken.text : XmlToken → Bytes
  | .chars run => run
  | .start tag => ch '<' :: (tag.text ++ lit ">")
  | .stop name space => ch '<' :: ch '/' :: (name ++ space ++ lit ">")
  | .empty tag => ch '<' :: (tag.text ++ lit "/>")

/-- The text of a sequence of tokens. -/
def tokensText (tokens : List XmlToken) : Bytes := (tokens.map XmlToken.text).flatten

@[simp] theorem tokensText_nil : tokensText [] = [] := rfl

@[simp] theorem tokensText_cons (token : XmlToken) (tokens : List XmlToken) :
    tokensText (token :: tokens) = token.text ++ tokensText tokens := rfl

@[simp] theorem tokensText_append (tokens more : List XmlToken) :
    tokensText (tokens ++ more) = tokensText tokens ++ tokensText more := by
  simp [tokensText]

namespace XmlContent

def tokens : XmlContent → List XmlToken
  | nil => []
  | chars run rest => .chars run :: rest.tokens
  | empty tag rest => .empty tag :: rest.tokens
  | node tag inner space rest =>
    .start tag :: (inner.tokens ++ .stop tag.name space :: rest.tokens)

def text (content : XmlContent) : Bytes := tokensText content.tokens

end XmlContent

namespace XmlElement

/-- The tokens of an element before its last one. -/
def front : XmlElement → List XmlToken
  | empty _ => []
  | node tag inner _ => .start tag :: inner.tokens

/-- The tag that ends an element. -/
def last : XmlElement → XmlToken
  | empty tag => .empty tag
  | node tag _ space => .stop tag.name space

def text (element : XmlElement) : Bytes := tokensText (element.front ++ [element.last])

/-- An element as a content of its own. -/
def content : XmlElement → XmlContent
  | empty tag => .empty tag .nil
  | node tag inner space => .node tag inner space .nil

theorem text_content (element : XmlElement) : element.content.text = element.text := by
  cases element <;> rfl

end XmlElement

/-! ## Well-formedness -/

/-- An attribute in a tag: `=` with white space around it, and a value in quotes. -/
structure AttrText.InTag (a : AttrText) : Prop where
  lead : a.lead ≠ [] ∧ ∀ c ∈ a.lead, whitespace c = true
  name : a.name ≠ [] ∧ a.name.all nameChar = true
  gap : ∃ s s' : Bytes, (∀ c ∈ s ++ s', whitespace c = true) ∧ a.gap = s ++ ch '=' :: s'
  quote : a.quote = quote1 ∨ a.quote = quote2
  value : a.quote ∉ a.value ∧ ch '<' ∉ a.value

/-- A name, and attributes behind it. -/
structure XmlTag.WellFormed (tag : XmlTag) : Prop where
  name : tag.name ≠ [] ∧ tag.name.all nameChar = true
  attrs : ∀ a ∈ tag.attrs, a.InTag
  space : ∀ c ∈ tag.space, whitespace c = true

/-- A token as it may stand in a well-formed content. -/
def XmlToken.WellFormed : XmlToken → Prop
  | .chars run => ch '<' ∉ run
  | .start tag => tag.WellFormed
  | .stop name space =>
    (name ≠ [] ∧ name.all nameChar = true) ∧ ∀ c ∈ space, whitespace c = true
  | .empty tag => tag.WellFormed

/-- Every run of character data and every tag is well formed; the tree says that they nest. -/
def XmlContent.WellFormed (content : XmlContent) : Prop := ∀ token ∈ content.tokens, token.WellFormed

def XmlElement.WellFormed (element : XmlElement) : Prop :=
  ∀ token ∈ element.front ++ [element.last], token.WellFormed

/-! ## What is printed -/

/-- A text in which markup characters are escaped: no `<`, no quote character. -/
def Escaped (text : Bytes) : Prop :=
  text.all (fun c => c != ch '<' && c != quote1 && c != quote2) = true

instance (text : Bytes) : Decidable (Escaped text) := inferInstanceAs (Decidable (_ = true))

theorem Escaped.char {text : Bytes} (h : Escaped text) {c : UInt8} (hc : c ∈ text) :
    c ≠ ch '<' ∧ c ≠ quote1 ∧ c ≠ quote2 := by
  have := List.all_eq_true.mp h c hc
  simpa [and_assoc] using this

theorem Escaped.append {u v : Bytes} (h : Escaped u) (h' : Escaped v) : Escaped (u ++ v) := by
  unfold Escaped at *
  rw [List.all_append, h, h']
  rfl

/-- An attribute in a tag, with a value that holds anything but its quote character. -/
structure AttrText.Printed (a : AttrText) : Prop where
  lead : a.lead ≠ [] ∧ ∀ c ∈ a.lead, whitespace c = true
  name : a.name ≠ [] ∧ a.name.all nameChar = true
  gap : ∃ s s' : Bytes, (∀ c ∈ s ++ s', whitespace c = true) ∧ a.gap = s ++ ch '=' :: s'
  quote : a.quote = quote1 ∨ a.quote = quote2
  value : a.quote ∉ a.value

structure XmlTag.Printed (tag : XmlTag) : Prop where
  name : tag.name ≠ [] ∧ tag.name.all nameChar = true
  attrs : ∀ a ∈ tag.attrs, a.Printed
  space : ∀ c ∈ tag.space, whitespace c = true

/-- A token as it is printed. -/
def XmlToken.Printed : XmlToken → Prop
  | .chars run => Escaped run
  | .start tag => tag.Printed
  | .stop name space =>
    (name ≠ [] ∧ name.all nameChar = true) ∧ ∀ c ∈ space, whitespace c = true
  | .empty tag => tag.Printed

def XmlContent.Printed (content : XmlContent) : Prop := ∀ token ∈ content.tokens, token.Printed

def XmlElement.Printed (element : XmlElement) : Prop :=
  ∀ token ∈ element.front ++ [element.last], token.Printed

theorem AttrText.InTag.printed {a : AttrText} (h : a.InTag) : a.Printed :=
  ⟨h.lead, h.name, h.gap, h.quote, h.value.1⟩

theorem XmlTag.WellFormed.printed {tag : XmlTag} (h : tag.WellFormed) : tag.Printed :=
  ⟨h.name, fun a ha => (h.attrs a ha).printed, h.space⟩

end Mukite
