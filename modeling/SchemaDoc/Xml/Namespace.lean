import SchemaDoc.Xml.Name
import SchemaDoc.Xml.Node

/-!
# Namespaces of a start tag

The attributes of a start tag are taken in one after another (`StartTag.assign`); those named
`xmlns` or qualified with it declare prefixes and are no attributes of the element. When the tag
ends, the prefixes of its attributes and of its own name are looked up (`StartTag.resolve`), first
among its own declarations, then among those of the elements around it.
-/
namespace SchemaDoc.Xml

private def namespaceHost : String := "http:" ++ "//www.w3.org/"

/-- The namespace that the prefix `xml` stands for without a declaration. -/
def xmlNamespace : String := namespaceHost ++ "XML/1998/namespace"

/-- The namespace of declarations themselves. -/
def xmlnsNamespace : String := namespaceHost ++ "2000/xmlns/"

/-- Prefixes and what they stand for. The empty prefix is that of names without one. The first entry
of a prefix counts. -/
abbrev Scope := List (String × String)

/-- An attribute whose prefix has not been looked up. -/
structure Assignment where
  name : QName
  value : String
  mark : Mark
  deriving DecidableEq, Repr

structure StartTag where
  name : QName
  mark : Mark
  attributes : List Assignment
  declarations : Scope
  deriving DecidableEq, Repr

structure Resolved where
  uri? : Option String
  attributes : List Attribute
  scope : Scope
  deriving DecidableEq, Repr

namespace StartTag

def begin (name : QName) (mark : Mark) : Except (Fault Mark) StartTag :=
  if name.qualifier = "xmlns" then .error ⟨.xmlnsElement, mark⟩ else .ok ⟨name, mark, [], []⟩

/-- Binds `name` to the namespace `uri`. The binding of `xml` to its own namespace is allowed, and
not recorded. -/
def declare (tag : StartTag) (name uri : String) (mark : Mark) : Except (Fault Mark) StartTag :=
  if uri = xmlnsNamespace then .error ⟨.xmlnsNamespaceDeclared, mark⟩
  else if name = "xml" then
    if uri = xmlNamespace then .ok tag else .error ⟨.xmlPrefixRebound, mark⟩
  else if uri = xmlNamespace then .error ⟨.xmlNamespaceRebound, mark⟩
  else if (tag.declarations.lookup name).isSome then .error ⟨.repeatedDeclaration name, mark⟩
  else .ok { tag with declarations := tag.declarations ++ [(name, uri)] }

/-- Binds the empty prefix. A second binding on the same tag is no fault and does not count. -/
def declareDefault (tag : StartTag) (uri : String) (mark : Mark) : Except (Fault Mark) StartTag :=
  if uri = xmlNamespace then .error ⟨.xmlNamespaceRebound, mark⟩
  else if uri = xmlnsNamespace then .error ⟨.xmlnsNamespaceDeclared, mark⟩
  else .ok { tag with declarations := tag.declarations ++ [("", uri)] }

/-- Takes in an attribute or a declaration. -/
def assign (tag : StartTag) (name : QName) (value : String) (mark : Mark) :
    Except (Fault Mark) StartTag :=
  if name.qualifier = "xmlns" then tag.declare name.localName value mark
  else if name.localName = "xmlns" then tag.declareDefault value mark
  else .ok { tag with attributes := tag.attributes ++ [⟨name, value, mark⟩] }

end StartTag

/-- The namespace of an attribute. Without a prefix it has none, whatever the default is. -/
def attributeNamespace (scope : Scope) (qualifier : String) (mark : Mark) :
    Except (Fault Mark) (Option String) :=
  if qualifier = "xml" then .ok (some xmlNamespace)
  else if qualifier = "" then .ok none
  else match scope.lookup qualifier with
    | some uri => .ok (some uri)
    | none => .error ⟨.unknownPrefix qualifier, mark⟩

def elementNamespace (scope : Scope) (qualifier : String) (mark : Mark) :
    Except (Fault Mark) (Option String) :=
  match scope.lookup qualifier with
  | some uri => .ok (some uri)
  | none => if qualifier = "" then .ok none else .error ⟨.unknownPrefix qualifier, mark⟩

/-- Looks up the prefix of one more attribute. No two attributes of an element have the same
name. -/
def addAttribute (scope : Scope) (before : List Attribute) (a : Assignment) :
    Except (Fault Mark) (List Attribute) := do
  let uri? ← attributeNamespace scope a.name.qualifier a.mark
  if before.any fun b => b.uri? == uri? && b.name == a.name.localName then
    .error ⟨.repeatedAttribute a.name.localName, a.mark⟩
  else
    return before ++ [⟨uri?, a.name.localName, a.value⟩]

/-- Looks up the prefixes of a whole start tag inside elements with the declarations `outer`. -/
def StartTag.resolve (tag : StartTag) (outer : Scope) : Except (Fault Mark) Resolved := do
  let scope := tag.declarations ++ outer
  let attributes ← tag.attributes.foldlM (addAttribute scope) []
  let uri? ← elementNamespace scope tag.name.qualifier tag.mark
  return ⟨uri?, attributes, scope⟩

end SchemaDoc.Xml
