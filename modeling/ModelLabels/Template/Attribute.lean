/-! # Attributes

The text between the braces of a directive names the attribute to render.  It is `property:` and a key,
or one word of ASCII letters, digits and underscores.

* `Attribute.ofWord`: the supported words name an attribute each, any other word is unknown.
* `Attribute.ofChars?`: the attribute a text stands for, if any; `text_of_ofChars?`.
-/

namespace ModelLabels
set_option autoImplicit false

/-- What a directive renders of the object it reaches. -/
inductive Attribute where
  | type
  | name
  | documentation
  | id
  | content
  /-- The value of the property with this key. -/
  | property (key : String)
  /-- A well-formed word that names no attribute. -/
  | unknown (word : String)
  deriving Repr, DecidableEq

namespace Attribute

/-- The characters that announce a property key. -/
def propertyMark : List Char := ['p', 'r', 'o', 'p', 'e', 'r', 't', 'y', ':']

/-- The characters between a directive's braces that stand for the attribute. -/
def text : Attribute → String
  | type => "type"
  | name => "name"
  | documentation => "documentation"
  | id => "id"
  | content => "content"
  | property key => String.ofList propertyMark ++ key
  | unknown word => word

/-- The attributes that are named by a word. -/
def named : List Attribute := [type, name, documentation, id, content]

/-- The attribute a word stands for. -/
def ofWord (word : String) : Attribute := (named.find? (·.text = word)).getD (unknown word)

/-- The characters of a word. -/
def isWordChar (c : Char) : Bool := c.isAlphanum || c == '_'

/-- The characters of a property key: all but those that delimit directives. -/
def isKeyChar (c : Char) : Bool := c != '{' && c != '}' && c != '$'

/-- The attribute a text stands for, or nothing when it has not the form of an attribute. -/
def ofChars? (cs : List Char) : Option Attribute :=
  if propertyMark.isPrefixOf cs then
    let key := cs.drop propertyMark.length
    if !key.isEmpty && key.all isKeyChar then some (property (String.ofList key)) else none
  else if !cs.isEmpty && cs.all isWordChar then some (ofWord (String.ofList cs))
  else none

/-- A word stands for the attribute that is written as that word. -/
theorem text_ofWord (word : String) : (ofWord word).text = word := by
  unfold ofWord
  cases h : named.find? (·.text = word) with
  | none => rfl
  | some a => simpa using List.find?_some h

/-- A text that stands for an attribute is the written form of that attribute. -/
theorem text_of_ofChars? {cs : List Char} {a : Attribute} (h : ofChars? cs = some a) :
    a.text.toList = cs := by
  unfold ofChars? at h
  split at h
  · rename_i hp
    obtain ⟨key, rfl⟩ := List.isPrefixOf_iff_prefix.1 hp
    rw [List.drop_left] at h
    simp only at h
    split at h
    · obtain rfl := Option.some.inj h
      simp only [text, propertyMark, String.toList_append, String.toList_ofList]
    · exact absurd h (Option.some_ne_none a).symm
  · split at h
    · obtain rfl := Option.some.inj h
      rw [text_ofWord, String.toList_ofList]
    · exact absurd h (Option.some_ne_none a).symm

end Attribute

end ModelLabels
