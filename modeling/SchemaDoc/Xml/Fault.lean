/-!
# Faults of a document

A fault is a cause and a place. While a text is read, a place is a `Mark`, the text that is still
unread there; afterwards it is a `Position`, a row and a column. `Fault.locate` turns the one into
the other, and `Fault.message` is the sentence shown to the user.
-/
namespace SchemaDoc.Xml

/-- A place in a text, told by what is left to read from there. -/
abbrev Mark := List Char

/-- Row and column, both counted from 1 in characters. -/
structure Position where
  row : Nat
  column : Nat
  deriving DecidableEq, Repr

namespace Position

/-- The place after one more character. -/
def advance (p : Position) (c : Char) : Position :=
  if c = '\n' then ⟨p.row + 1, 1⟩ else ⟨p.row, p.column + 1⟩

/-- The place after the text `read`, seen from the start of the document. -/
def after (read : List Char) : Position :=
  read.foldl advance ⟨1, 1⟩

def text (p : Position) : String :=
  toString p.row ++ ":" ++ toString p.column

end Position

/-- Why a text is no document that can be read. -/
inductive Cause
  | endOfText
  | expectedChar (wanted found : Char)
  | expectedKind (wanted : String) (found : Char)
  | expectedText (wanted : String)
  | invalidName
  | unknownToken
  /-- A declaration that does not stand at the start of the text. -/
  | misplacedDeclaration
  /-- A comment that holds two hyphens. -/
  | hyphensInComment
  /-- The end mark of a CDATA section inside plain text. -/
  | sectionEndInText
  | forbiddenChar (c : Char)
  | malformedReference
  | unknownEntity (name : String)
  | doctype
  | mismatchedTag (opened closed : String)
  | noRoot
  | unclosedRoot
  /-- The prefix `xml` bound to another namespace. -/
  | xmlPrefixRebound
  /-- The namespace of `xml` bound to another prefix. -/
  | xmlNamespaceRebound
  | xmlnsNamespaceDeclared
  /-- An element whose prefix is `xmlns`. -/
  | xmlnsElement
  | repeatedDeclaration (name : String)
  | unknownPrefix (name : String)
  | repeatedAttribute (name : String)
  deriving DecidableEq, Repr

structure Fault (place : Type) where
  cause : Cause
  place : place
  deriving DecidableEq, Repr

/-- The first byte of the UTF-8 form of a character, shown as the character of that number. -/
def leadByte (c : Char) : Char :=
  let n := c.toNat
  if n < 0x80 then c
  else if n < 0x800 then Char.ofNat (0xC0 + n / 0x40)
  else if n < 0x10000 then Char.ofNat (0xE0 + n / 0x1000)
  else Char.ofNat (0xF0 + n / 0x40000)

/-- The escaped form of a forbidden character. -/
def escapedChar (c : Char) : String :=
  if c.toNat = 0 then "\\0" else "\\u\x7b" ++ String.ofList (Nat.toDigits 16 c.toNat) ++ "\x7d"

/-- The sentence for a cause, with the text of its place put in where the sentence names one. -/
def Cause.message (place : String) : Cause → String
  | .endOfText => "unexpected end of stream"
  | .expectedChar wanted found =>
    "expected '" ++ wanted.toString ++ "' not '" ++ (leadByte found).toString ++ "' at " ++ place
  | .expectedKind wanted found =>
    "expected " ++ wanted ++ " not '" ++ (leadByte found).toString ++ "' at " ++ place
  | .expectedText wanted => "expected '" ++ wanted ++ "' at " ++ place
  | .invalidName => "invalid name token at " ++ place
  | .unknownToken => "unknown token at " ++ place
  | .misplacedDeclaration => "unexpected XML declaration at " ++ place
  | .hyphensInComment => "comment at " ++ place ++ " contains '--'"
  | .sectionEndInText => "']]>' at " ++ place ++ " is not allowed inside a character data"
  | .forbiddenChar c => "a non-XML character '" ++ escapedChar c ++ "' found at " ++ place
  | .malformedReference => "malformed entity reference at " ++ place
  | .unknownEntity name => "unknown entity reference '" ++ name ++ "' at " ++ place
  | .doctype => "XML with DTD detected"
  | .mismatchedTag opened closed =>
    "expected '" ++ opened ++ "' tag, not '" ++ closed ++ "' at " ++ place
  | .noRoot => "the document does not have a root node"
  | .unclosedRoot => "the root node was opened but never closed"
  | .xmlPrefixRebound => "'xml' namespace prefix mapped to wrong URI at " ++ place
  | .xmlNamespaceRebound => "the 'xml' namespace URI is used for not 'xml' prefix at " ++ place
  | .xmlnsNamespaceDeclared =>
    "the 'xmlns' URI is used at " ++ place ++ ", but it must not be declared"
  | .xmlnsElement => "the 'xmlns' prefix is used at " ++ place ++ ", but it must not be"
  | .repeatedDeclaration name => "namespace '" ++ name ++ "' at " ++ place ++ " is already defined"
  | .unknownPrefix name => "an unknown namespace prefix '" ++ name ++ "' at " ++ place
  | .repeatedAttribute name => "attribute '" ++ name ++ "' at " ++ place ++ " is already defined"

namespace Fault

/-- The same fault with a mark inside `text` told as row and column. -/
def locate (text : List Char) (f : Fault Mark) : Fault Position :=
  ⟨f.cause, .after (text.take (text.length - f.place.length))⟩

def message (f : Fault Position) : String :=
  f.cause.message f.place.text

end Fault

end SchemaDoc.Xml
