import SchemaDoc.Proofs.Schema.Loading

/-!
# Attributes with a namespace

The nodes of a text can be read as elements with all of their attributes or only with some, and are
loaded with those that have no namespace (`Database.parse`). Where all attributes are kept under
their local names, one with a namespace stands for one without that comes after it, or is missing.
Tags, texts and children do not depend on what is kept.
-/
namespace SchemaDoc

open Xml (Node Attribute)

def Xml.Node.childrenTagged (n : Node) (tag : String) : List Node :=
  n.children.filterMap fun
    | .element e => if e.name = tag then some e else none
    | _ => none

/-- The value of the first attribute of a local name, among those that are kept. -/
def Xml.Node.attribute? (n : Node) (keep : Attribute → Bool) (name : String) : Option String :=
  (n.attributes.find? fun a => keep a && a.name == name).map (·.value)

section

variable (keep keep' : Attribute → Bool)

@[simp] theorem Element.tag_ofNode (n : Node) : (ofNode keep n).tag = n.name := by
  cases n
  rw [ofNode]

@[simp] theorem Element.text_ofNode (n : Node) :
    (ofNode keep n).text = Xml.leadingText? n.children := by
  cases n
  rw [ofNode]

@[simp] theorem Element.children_ofNode (n : Node) :
    (ofNode keep n).children = ofChildren keep n.children := by
  cases n
  rw [ofNode]

theorem Element.attribute?_ofNode (n : Node) (name : String) :
    (ofNode keep n).attribute? name = n.attribute? keep name := by
  cases n with
  | mk uri? tag attributes children =>
    rw [ofNode, Element.attribute?, Xml.Node.attribute?]
    induction attributes with
    | nil => rfl
    | cons a rest ih =>
      by_cases hk : keep a
      · by_cases hn : a.name = name
        · simp [hk, hn]
        · have hne : (name == a.name) = false := by simpa using Ne.symm hn
          simpa [hk, hn, List.lookup_cons, hne] using ih
      · simpa [hk] using ih

theorem Element.childrenTagged_ofNode (n : Node) (tag : String) :
    (ofNode keep n).childrenTagged tag = (n.childrenTagged tag).map (ofNode keep) := by
  rw [Element.childrenTagged, children_ofNode, Xml.Node.childrenTagged]
  induction n.children with
  | nil => rfl
  | cons c rest ih =>
    cases c with
    | element e => by_cases h : e.name = tag <;> simp [ofChildren, h, ih]
    | text content => simpa [ofChildren] using ih
    | comment content => simpa [ofChildren] using ih
    | instruction target content => simpa [ofChildren] using ih

theorem Reference.ofChildren_ofChildren (children : List (Xml.Child Node)) :
    Reference.ofChildren (Element.ofChildren keep children) =
      Reference.ofChildren (Element.ofChildren keep' children) := by
  have hfold : ∀ r, (Element.ofChildren keep children).foldl take r =
      (Element.ofChildren keep' children).foldl take r := by
    induction children with
    | nil => exact fun _ => rfl
    | cons c rest ih =>
      cases c with
      | element e =>
        intro r
        rw [Element.ofChildren, Element.ofChildren, List.foldl_cons, List.foldl_cons, ih]
        simp only [take, Element.tag_ofNode, Element.text_ofNode]
      | text content => exact ih
      | comment content => exact ih
      | instruction target content => exact ih
  exact hfold {}

theorem Key.ofElement_ofNode_eq_iff (c : Node) :
    Key.ofElement (.ofNode keep c) = Key.ofElement (.ofNode keep' c) ↔
      (c.attribute? keep "key" = some "primary" ↔ c.attribute? keep' "key" = some "primary") ∧
        (c.attribute? keep "key" = some "foreign" ↔ c.attribute? keep' "key" = some "foreign") := by
  rw [Key.ofElement, Key.ofElement, Element.attribute?_ofNode, Element.attribute?_ofNode,
    Element.children_ofNode, Element.children_ofNode, Reference.ofChildren_ofChildren keep keep']
  split <;> split <;> simp_all

/-- Two ways to keep attributes tell the same of a column: its words, the number of its length, the
kind of its key, and whether it counts up by itself. -/
structure Column.ReadsAlike (c : Node) : Prop where
  name : c.attribute? keep "name" = c.attribute? keep' "name"
  type : c.attribute? keep "type" = c.attribute? keep' "type"
  length : lengthOf? (c.attribute? keep "length") = lengthOf? (c.attribute? keep' "length")
  primary : c.attribute? keep "key" = some "primary" ↔ c.attribute? keep' "key" = some "primary"
  foreign : c.attribute? keep "key" = some "foreign" ↔ c.attribute? keep' "key" = some "foreign"
  autoincrement :
    c.attribute? keep "autoincrement" = some "true" ↔
      c.attribute? keep' "autoincrement" = some "true"

/-- Two ways to keep attributes tell the same of a table, its columns and the users of its
permissions. -/
structure Table.ReadsAlike (t : Node) : Prop where
  name : t.attribute? keep "name" = t.attribute? keep' "name"
  columns : ∀ c ∈ t.childrenTagged "column", Column.ReadsAlike keep keep' c
  users : ∀ p ∈ t.childrenTagged "permissions", p.attribute? keep "user" = p.attribute? keep' "user"

/-- Two ways to keep attributes show the same first fault, and, where there is none, tell the same
of every table. -/
structure Database.ReadsAlike (root : Node) : Prop where
  fault : fault? (.ofNode keep root) = fault? (.ofNode keep' root)
  tables : fault? (.ofNode keep root) = none →
    ∀ t ∈ root.childrenTagged "table", Table.ReadsAlike keep keep' t

end

variable {keep keep' : Attribute → Bool}

theorem Element.getD_attribute?_eq_iff {a b : Element} {name : String} (ha : a.missing? name = none)
    (hb : b.missing? name = none) :
    (a.attribute? name).getD "" = (b.attribute? name).getD "" ↔
      a.attribute? name = b.attribute? name := by
  obtain ⟨v, hv⟩ := Element.missing?_eq_none_iff.mp ha
  obtain ⟨w, hw⟩ := Element.missing?_eq_none_iff.mp hb
  simp [hv, hw]

theorem Column.lengthOf?_getD_eq_iff {a b : Element} (ha : lengthFault? a = none)
    (hb : lengthFault? b = none) :
    (lengthOf? (a.attribute? "length")).getD 0 = (lengthOf? (b.attribute? "length")).getD 0 ↔
      lengthOf? (a.attribute? "length") = lengthOf? (b.attribute? "length") := by
  rw [lengthFault?] at ha hb
  cases hm : lengthOf? (a.attribute? "length") with
  | none => simp [hm] at ha
  | some m =>
    cases hn : lengthOf? (b.attribute? "length") with
    | none => simp [hn] at hb
    | some n => simp

theorem Column.read_ofNode_eq_iff {c : Node} (h : fault? (.ofNode keep c) = none)
    (h' : fault? (.ofNode keep' c) = none) :
    read (.ofNode keep c) = read (.ofNode keep' c) ↔ ReadsAlike keep keep' c := by
  simp only [fault?, Option.or_eq_none_iff] at h h'
  obtain ⟨hname, htype, hlength⟩ := h
  obtain ⟨hname', htype', hlength'⟩ := h'
  have hname := Element.getD_attribute?_eq_iff hname hname'
  have htype := Element.getD_attribute?_eq_iff htype htype'
  have hlength := lengthOf?_getD_eq_iff hlength hlength'
  simp only [Element.attribute?_ofNode] at hname htype hlength
  have hkey := Key.ofElement_ofNode_eq_iff keep keep' c
  have hauto : (c.attribute? keep "autoincrement" == some "true") =
        (c.attribute? keep' "autoincrement" == some "true") ↔
      (c.attribute? keep "autoincrement" = some "true" ↔
          c.attribute? keep' "autoincrement" = some "true") := by
    rw [Bool.eq_iff_iff, beq_iff_eq, beq_iff_eq]
  simp only [read, Column.mk.injEq, Element.attribute?_ofNode, hname, htype, hlength, hkey, hauto]
  constructor
  · rintro ⟨hname, htype, hlength, ⟨hprimary, hforeign⟩, hauto⟩
    exact ⟨hname, htype, hlength, hprimary, hforeign, hauto⟩
  · rintro ⟨hname, htype, hlength, hprimary, hforeign, hauto⟩
    exact ⟨hname, htype, hlength, ⟨hprimary, hforeign⟩, hauto⟩

theorem Permission.read_ofNode_eq_iff {p : Node} (h : fault? (.ofNode keep p) = none)
    (h' : fault? (.ofNode keep' p) = none) :
    read (.ofNode keep p) = read (.ofNode keep' p) ↔
      p.attribute? keep "user" = p.attribute? keep' "user" := by
  have huser := Element.getD_attribute?_eq_iff h h'
  simp only [Element.attribute?_ofNode] at huser
  simp only [read, Permission.mk.injEq, Element.attribute?_ofNode, huser,
    Element.childrenTagged_ofNode, List.map_map, Function.comp_def, Element.text_ofNode, and_true]

theorem Table.read_ofNode_eq_iff {t : Node} (h : fault? (.ofNode keep t) = none)
    (h' : fault? (.ofNode keep' t) = none) :
    read (.ofNode keep t) = read (.ofNode keep' t) ↔ ReadsAlike keep keep' t := by
  simp only [fault?, Option.or_eq_none_iff, Element.childrenTagged_ofNode, List.findSome?_map,
    List.findSome?_eq_none_iff] at h h'
  obtain ⟨hname, hcolumns, hpermissions⟩ := h
  obtain ⟨hname', hcolumns', hpermissions'⟩ := h'
  have hname := Element.getD_attribute?_eq_iff hname hname'
  simp only [Element.attribute?_ofNode] at hname
  simp only [read, Table.mk.injEq, Element.attribute?_ofNode, hname, Element.childrenTagged_ofNode,
    List.map_map, List.map_inj_left, Function.comp_apply]
  constructor
  · rintro ⟨hname, hc, hp⟩
    exact ⟨hname,
      fun c hm => (Column.read_ofNode_eq_iff (hcolumns c hm) (hcolumns' c hm)).mp (hc c hm),
      fun p hm =>
        (Permission.read_ofNode_eq_iff (hpermissions p hm) (hpermissions' p hm)).mp (hp p hm)⟩
  · rintro ⟨hname, hc, hp⟩
    exact ⟨hname,
      fun c hm => (Column.read_ofNode_eq_iff (hcolumns c hm) (hcolumns' c hm)).mpr (hc c hm),
      fun p hm =>
        (Permission.read_ofNode_eq_iff (hpermissions p hm) (hpermissions' p hm)).mpr (hp p hm)⟩

namespace Database

theorem read_ofNode_eq_iff {root : Node} (h : fault? (.ofNode keep root) = none)
    (h' : fault? (.ofNode keep' root) = none) :
    read (.ofNode keep root) = read (.ofNode keep' root) ↔
      ∀ t ∈ root.childrenTagged "table", Table.ReadsAlike keep keep' t := by
  simp only [fault?, Element.childrenTagged_ofNode, List.findSome?_map,
    List.findSome?_eq_none_iff] at h h'
  simp only [read, Database.mk.injEq, Element.childrenTagged_ofNode, List.map_map,
    List.map_inj_left, Function.comp_apply]
  exact forall₂_congr fun t hm => Table.read_ofNode_eq_iff (h t hm) (h' t hm)

/-- A node is loaded alike with two ways to keep attributes exactly if they tell the same of it. -/
theorem ofElement_ofNode_eq_iff (root : Node) :
    ofElement (.ofNode keep root) = ofElement (.ofNode keep' root) ↔
      ReadsAlike keep keep' root := by
  rw [ofElement_eq_ofElement_iff]
  constructor
  · rintro ⟨hfault, hread⟩
    exact ⟨hfault, fun h => (read_ofNode_eq_iff h (hfault ▸ h)).mp (hread h)⟩
  · rintro ⟨hfault, htables⟩
    exact ⟨hfault, fun h => (read_ofNode_eq_iff h (hfault ▸ h)).mpr (htables h)⟩

/-- A text is loaded at once and by way of an element tree to the same end exactly if it is no
document, or the attributes of its root and below tell the same with those that have a namespace and
without them. -/
theorem parse_eq_parse_ofElement_iff (text : String) :
    Database.parse text = (Element.parse text >>= Database.ofElement) ↔
      ∀ root, Node.parse text = .ok root → ReadsAlike (·.uri?.isNone) (fun _ => true) root := by
  rw [Database.parse, Element.parsePlain, Element.parse]
  cases Node.parse text with
  | error fault => exact iff_of_true rfl fun _ h => by cases h
  | ok root =>
    simp only [Except.ok.injEq, forall_eq']
    exact ofElement_ofNode_eq_iff root

/-- A name with a namespace hides the one without that comes after it. -/
theorem qualifiedName_hides_plain_name :
    Database.parse "<d xmlns:p=\"u\"><table p:name=\"a\" name=\"b\"/></d>" = .ok ⟨[⟨"b", [], []⟩]⟩ ∧
      (Element.parse "<d xmlns:p=\"u\"><table p:name=\"a\" name=\"b\"/></d>" >>=
        Database.ofElement) =
        .ok ⟨[⟨"a", [], []⟩]⟩ := by
  decide +kernel

end Database

end SchemaDoc
