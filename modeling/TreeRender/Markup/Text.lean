import TreeRender.Text.Chars

/-!
# Names and text in markup

Names are written into markup as they are, so only harmless characters are allowed in them. Text and
attribute values are written with the five characters that could end them replaced by entities.
Reading undoes that, and knows two more spellings of the apostrophe.
-/

namespace TreeRender.Markup

def isNameChar (c : Char) : Bool :=
  c.isAlphanum || c = '-' || c = '_' || c = ':' || c = '.'

def isValidName (name : String) : Bool :=
  !name.toList.isEmpty && name.toList.all isNameChar

/-- Elements that never have content and never get a closing tag. -/
def voidElements : List String :=
  ["area", "base", "br", "col", "embed", "hr", "img", "input", "link", "meta", "param", "source",
    "track", "wbr"]

def isVoid (tag : String) : Bool := voidElements.contains (Text.lower tag)

def escapeChar (c : Char) : List Char :=
  if c = '&' then ['&', 'a', 'm', 'p', ';']
  else if c = '<' then ['&', 'l', 't', ';']
  else if c = '>' then ['&', 'g', 't', ';']
  else if c = '"' then ['&', 'q', 'u', 'o', 't', ';']
  else if c = '\'' then ['&', '#', '3', '9', ';']
  else [c]

def escapeChars (text : List Char) : List Char := text.flatMap escapeChar

def escape (text : String) : String := String.ofList (escapeChars text.toList)

/-- The entities that are read, without their ampersand, and what they stand for. -/
def entities : List (List Char × Char) :=
  [(['a', 'm', 'p', ';'], '&'), (['l', 't', ';'], '<'), (['g', 't', ';'], '>'),
    (['q', 'u', 'o', 't', ';'], '"'), (['#', '3', '9', ';'], '\''),
    (['#', 'x', '2', '7', ';'], '\''), (['a', 'p', 'o', 's', ';'], '\'')]

/-- The entity that `rest` starts with, after an ampersand. -/
def entity? (rest : List Char) : Option (List Char × Char) :=
  entities.find? fun (name, _) => name.isPrefixOf rest

/-- Reads entities, passing over the first `skip` characters, which belong to one already read. -/
def unescapeFrom : (skip : Nat) → List Char → List Char
  | _, [] => []
  | skip + 1, _ :: rest => unescapeFrom skip rest
  | 0, c :: rest =>
    if c = '&' then
      match entity? rest with
      | some (name, char) => char :: unescapeFrom name.length rest
      | none => c :: unescapeFrom 0 rest
    else c :: unescapeFrom 0 rest

/-- Reverses `escape`. An ampersand that starts no known entity stays. -/
def unescape (text : String) : String := String.ofList (unescapeFrom 0 text.toList)

end TreeRender.Markup
