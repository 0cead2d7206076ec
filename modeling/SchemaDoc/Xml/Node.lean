/-!
# The tree of a document

A node is an element with its name, its attributes and what stands between its tags. Names are told
by namespace and local name; how they were qualified in the text is forgotten.
-/
namespace SchemaDoc.Xml

structure Attribute where
  uri? : Option String
  name : String
  value : String
  deriving DecidableEq, Repr

inductive Child (element : Type)
  | element (e : element)
  | text (content : String)
  | comment (content : String)
  | instruction (target content : String)
  deriving Repr

structure Node where
  uri? : Option String
  name : String
  attributes : List Attribute
  children : List (Child Node)

/-- The text that comes first between the tags, if a text comes first. -/
def leadingText? {element : Type} : List (Child element) → Option String
  | .text content :: _ => some content
  | _ => none

/-- Adds a text after the children, whose last comes first. Neighbouring texts are one. -/
def addText {element : Type} (content : String) : List (Child element) → List (Child element)
  | .text before :: rest => .text (before ++ content) :: rest
  | children => .text content :: children

end SchemaDoc.Xml
