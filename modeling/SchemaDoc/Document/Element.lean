import SchemaDoc.Document.Fault
import SchemaDoc.Xml.Tree

/-!
# Elements

An element is what the schema model is read from: a tag, named values in order, the text that comes
first, and child elements. It is made by hand (`withAttribute`, `withText`, `withChild`) or read
from a text. A node of a parsed document can be read as an element in two ways, which differ in the
attributes they keep (`Element.ofNode`): with every attribute under its local name, or with those
alone that have no namespace.
-/
namespace SchemaDoc

structure Element where
  tag : String := ""
  attributes : List (String × String) := []
  text : Option String := none
  children : List Element := []
  deriving Repr

instance : Inhabited Element := ⟨{}⟩

/-- Gives `name` a value in a list of named values: in the place of its first one, or at the end. -/
def assignValue (name value : String) : List (String × String) → List (String × String)
  | [] => [(name, value)]
  | (n, v) :: rest => if n = name then (n, value) :: rest else (n, v) :: assignValue name value rest

namespace Element

def withAttribute (e : Element) (name value : String) : Element :=
  { e with attributes := assignValue name value e.attributes }

def withText (e : Element) (text : String) : Element :=
  { e with text := some text }

def withChild (e child : Element) : Element :=
  { e with children := e.children ++ [child] }

def attribute? (e : Element) (name : String) : Option String :=
  e.attributes.lookup name

def requiredAttribute (e : Element) (name : String) : Except LoadFault String :=
  match e.attribute? name with
  | some value => .ok value
  | none => .error (.missingAttribute e.tag name)

def childrenTagged (e : Element) (tag : String) : List Element :=
  e.children.filter (·.tag = tag)

mutual

/-- Reads a node as an element with the attributes that `keep` lets through, under their local
names. -/
def ofNode (keep : Xml.Attribute → Bool) : Xml.Node → Element
  | ⟨_, name, attributes, children⟩ =>
    { tag := name
      attributes := (attributes.filter keep).map fun a => (a.name, a.value)
      text := Xml.leadingText? children
      children := ofChildren keep children }

def ofChildren (keep : Xml.Attribute → Bool) : List (Xml.Child Xml.Node) → List Element
  | [] => []
  | .element e :: rest => ofNode keep e :: ofChildren keep rest
  | .text _ :: rest => ofChildren keep rest
  | .comment _ :: rest => ofChildren keep rest
  | .instruction _ _ :: rest => ofChildren keep rest

end

/-- Reads a text and keeps all of its attributes. -/
def parse (text : String) : Except LoadFault Element :=
  match Xml.Node.parse text with
  | .ok root => .ok (ofNode (fun _ => true) root)
  | .error fault => .error (.malformedDocument fault)

/-- Reads a text and keeps the attributes without a namespace. -/
def parsePlain (text : String) : Except LoadFault Element :=
  match Xml.Node.parse text with
  | .ok root => .ok (ofNode (·.uri?.isNone) root)
  | .error fault => .error (.malformedDocument fault)

end Element

theorem lookup_assignValue_self (name value : String) (l : List (String × String)) :
    (assignValue name value l).lookup name = some value := by
  induction l with
  | nil => simp [assignValue]
  | cons a rest ih =>
    obtain ⟨n, v⟩ := a
    by_cases h : n = name
    · simp [assignValue, h]
    · have : (name == n) = false := by simpa using Ne.symm h
      simp [assignValue, h, List.lookup_cons, this, ih]

theorem lookup_assignValue_of_ne {name other : String} (value : String) (l : List (String × String))
    (h : other ≠ name) : (assignValue name value l).lookup other = l.lookup other := by
  induction l with
  | nil =>
    have : (other == name) = false := by simpa using h
    simp [assignValue, List.lookup_cons, this]
  | cons a rest ih =>
    obtain ⟨n, v⟩ := a
    by_cases hn : n = name
    · have : (other == n) = false := by simpa [hn] using h
      rw [assignValue, if_pos hn, List.lookup_cons, List.lookup_cons, this]
    · simp [assignValue, hn, List.lookup_cons, ih]

theorem map_fst_assignValue (name value : String) (l : List (String × String)) :
    (assignValue name value l).map Prod.fst =
      if name ∈ l.map Prod.fst then l.map Prod.fst else l.map Prod.fst ++ [name] := by
  induction l with
  | nil => simp [assignValue]
  | cons a rest ih =>
    obtain ⟨n, v⟩ := a
    by_cases hn : n = name
    · simp [assignValue, hn]
    · have : (name = n) ↔ False := by simpa using Ne.symm hn
      simp only [assignValue, hn, if_false, List.map_cons, ih, List.mem_cons, this, false_or]
      split <;> simp

namespace Element

theorem attribute?_withAttribute (e : Element) (name value other : String) :
    (e.withAttribute name value).attribute? other =
      if other = name then some value else e.attribute? other := by
  by_cases h : other = name
  · simp [attribute?, withAttribute, h, lookup_assignValue_self]
  · simp [attribute?, withAttribute, h, lookup_assignValue_of_ne value e.attributes h]

theorem ofChildren_append (keep : Xml.Attribute → Bool) (a b : List (Xml.Child Xml.Node)) :
    ofChildren keep (a ++ b) = ofChildren keep a ++ ofChildren keep b := by
  induction a with
  | nil => simp [ofChildren]
  | cons c rest ih => cases c <;> simp [ofChildren, ih]

end Element

end SchemaDoc
