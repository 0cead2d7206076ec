import SchemaDoc.Xml.Token
import SchemaDoc.Xml.Namespace

/-!
# From tokens to a tree

The tree is built along the tokens with a path of open elements. `Node.parse` reads a whole text:
the fault that comes first in the text is the one that is reported, no matter whether the tokens or
the tree show it, and only a text without faults is asked whether its root element is there and
closed.
-/
namespace SchemaDoc.Xml

structure OpenElement where
  name : QName
  content : Resolved
  children : List (Child Node)

def OpenElement.close (e : OpenElement) : Node :=
  ⟨e.content.uri?, e.name.localName, e.content.attributes, e.children.reverse⟩

/-- A tree that is being built: the start tag that is being read, the open elements with the
innermost first, and what stands outside of them with the last first. -/
structure Builder where
  tag? : Option StartTag
  path : List OpenElement
  outside : List (Child Node)

namespace Builder

def start : Builder := ⟨none, [], []⟩

def onChildren (f : List (Child Node) → List (Child Node)) (b : Builder) : Builder :=
  match b.path with
  | [] => { b with outside := f b.outside }
  | e :: path => { b with path := { e with children := f e.children } :: path }

def scope (b : Builder) : Scope :=
  match b.path with
  | [] => []
  | e :: _ => e.content.scope

def endStartTag (isEmpty : Bool) (b : Builder) (tag : StartTag) : Except (Fault Mark) Builder := do
  let e : OpenElement := ⟨tag.name, ← tag.resolve b.scope, []⟩
  let b := { b with tag? := none }
  return if isEmpty then b.onChildren (.element e.close :: ·) else { b with path := e :: b.path }

/-- Takes in one token. Parts of a start tag come only after its beginning, and an end tag only
inside an element. -/
def push (b : Builder) : Token → Except (Fault Mark) Builder
  | .startTag name mark => do return { b with tag? := some (← StartTag.begin name mark) }
  | .assignment name value mark =>
    match b.tag? with
    | some tag => do return { b with tag? := some (← tag.assign name value mark) }
    | none => .ok b
  | .startTagEnd isEmpty =>
    match b.tag? with
    | some tag => b.endStartTag isEmpty tag
    | none => .ok b
  | .endTag name mark =>
    match b.path with
    | e :: path =>
      if e.name = name then .ok (onChildren (.element e.close :: ·) { b with path := path })
      else .error ⟨.mismatchedTag e.name.text name.text, mark⟩
    | [] => .ok b
  | .text content => .ok (b.onChildren (addText content))
  | .comment content => .ok (b.onChildren (.comment content :: ·))
  | .instruction target content => .ok (b.onChildren (.instruction target content :: ·))

/-- The root element among what stands outside of open elements. -/
def root? : List (Child Node) → Option Node
  | [] => none
  | .element e :: _ => some e
  | _ :: rest => root? rest

def finish (b : Builder) : Except (Fault Mark) Node :=
  match b.path, root? b.outside with
  | _ :: _, _ => .error ⟨.unclosedRoot, []⟩
  | [], none => .error ⟨.noRoot, []⟩
  | [], some e => .ok e

end Builder

def Scanned.root (s : Scanned) : Except (Fault Mark) Node := do
  let b ← s.tokens.foldlM Builder.push Builder.start
  match s.fault? with
  | some f => .error f
  | none => b.finish

def Node.parse (text : String) : Except (Fault Position) Node :=
  (scan text.toList).root.mapError (Fault.locate text.toList)

end SchemaDoc.Xml
