import SchemaDoc.Proofs.Document.Commented
import SchemaDoc.Proofs.Document.RoundTrip
import SchemaDoc.Proofs.Schema.Loading
import SchemaDoc.Proofs.Schema.Noninterference

/-!
# Comments in schema documents

A schema reads the texts of a few elements only, and of those the text that comes first. A comment
that is put into a document leaves its database as it is, unless it stands before or inside of such
a text; inside of it, the database is that of the document in which the rest of the text is cut out
(`Database.parse_commented`).
-/
namespace SchemaDoc

open Xml

/-- The elements whose texts are read: actions and the parts of references. -/
def isTextTag (tag : String) : Bool :=
  ["permission", "fkey_table", "fkey_column", "fkey_constraint"].contains tag

namespace Element

variable (told : String → Bool) (e : Element)

@[simp] theorem tag_bare : (e.bare told).tag = e.tag := by
  cases e
  rw [bare]

@[simp] theorem attribute?_bare (name : String) :
    (e.bare told).attribute? name = e.attribute? name := by
  cases e
  rw [bare, attribute?, attribute?]

theorem text_bare : (e.bare told).text = if told e.tag then e.text else none := by
  cases e
  rw [bare]

theorem children_bare : (e.bare told).children = e.children.map (bare told) := by
  cases e
  rw [bare, bareAll_eq_map]

theorem filter_tag_map_bare (tag : String) (es : List Element) :
    (es.map (bare told)).filter (·.tag = tag) = (es.filter (·.tag = tag)).map (bare told) := by
  rw [List.filter_map]
  congr 2
  funext e
  simp

theorem childrenTagged_bare (tag : String) :
    (e.bare told).childrenTagged tag = (e.childrenTagged tag).map (bare told) := by
  rw [childrenTagged, children_bare, filter_tag_map_bare, childrenTagged]

theorem lastText?_map_bare {tag : String} (h : told tag) (es : List Element) :
    lastText? tag (es.map (bare told)) = lastText? tag es := by
  rw [lastText?, lastText?, filter_tag_map_bare, List.getLast?_map]
  cases hlast : (es.filter (·.tag = tag)).getLast? with
  | none => rfl
  | some e =>
    have htag : e.tag = tag := by simpa using (List.mem_filter.mp (List.mem_of_getLast? hlast)).2
    simp [text_bare, htag, h]

end Element

/-! ### What is read of an element without the other texts -/

section

variable (told : String → Bool) (e : Element)

theorem Column.fault?_bare : fault? (e.bare told) = fault? e := by
  simp [fault?, lengthFault?, Element.missing?]

theorem Permission.fault?_bare : fault? (e.bare told) = fault? e := by
  simp [fault?, Element.missing?]

theorem Table.fault?_bare : fault? (e.bare told) = fault? e := by
  have hcolumns : Column.fault? ∘ Element.bare told = Column.fault? :=
    funext (Column.fault?_bare told)
  have hpermissions : Permission.fault? ∘ Element.bare told = Permission.fault? :=
    funext (Permission.fault?_bare told)
  simp [fault?, Element.missing?, Element.childrenTagged_bare, List.findSome?_map,
    hcolumns, hpermissions]

theorem Database.fault?_bare : fault? (e.bare told) = fault? e := by
  have htables : Table.fault? ∘ Element.bare told = Table.fault? := funext (Table.fault?_bare told)
  rw [fault?, fault?, Element.childrenTagged_bare, List.findSome?_map, htables]

end

section

variable (e : Element)

theorem Key.ofElement_bare : ofElement (e.bare isTextTag) = ofElement e := by
  have htexts : Reference.ofChildren (e.bare isTextTag).children =
      Reference.ofChildren e.children := by
    have htag : ∀ tag ∈ ["fkey_table", "fkey_column", "fkey_constraint"], isTextTag tag := by decide
    simp only [List.forall_mem_cons] at htag
    obtain ⟨htable, hcolumn, hconstraint, -⟩ := htag
    simp only [Reference.ofChildren_eq, Element.children_bare,
      Element.lastText?_map_bare isTextTag htable, Element.lastText?_map_bare isTextTag hcolumn,
      Element.lastText?_map_bare isTextTag hconstraint]
  rw [ofElement, ofElement, Element.attribute?_bare, htexts]

theorem Column.read_bare : read (e.bare isTextTag) = read e := by
  simp [read, Key.ofElement_bare]

theorem Permission.read_bare : read (e.bare isTextTag) = read e := by
  have htexts : ∀ child ∈ e.childrenTagged "permission", (child.bare isTextTag).text =
      child.text := by
    intro child hchild
    have htag : isTextTag child.tag := by
      rw [Element.tag_of_mem_childrenTagged hchild]
      decide
    rw [Element.text_bare, if_pos htag]
  simp only [read, Element.attribute?_bare, Element.childrenTagged_bare, List.map_map]
  congr 1
  refine List.map_congr_left fun child hchild => ?_
  rw [Function.comp_apply, htexts child hchild]

theorem Table.read_bare : read (e.bare isTextTag) = read e := by
  have hcolumns : Column.read ∘ Element.bare isTextTag = Column.read := funext Column.read_bare
  have hpermissions : Permission.read ∘ Element.bare isTextTag = Permission.read :=
    funext Permission.read_bare
  simp only [read, Element.attribute?_bare, Element.childrenTagged_bare, List.map_map,
    hcolumns, hpermissions]

theorem Database.ofElement_bare : ofElement (e.bare isTextTag) = ofElement e := by
  have htables : Table.read ∘ Element.bare isTextTag = Table.read := funext Table.read_bare
  have hread : read (e.bare isTextTag) = read e := by
    rw [read, read, Element.childrenTagged_bare, List.map_map, htables]
  rw [ofElement_eq_failOr, ofElement_eq_failOr, fault?_bare, hread]

end

namespace Element

def startTag (e : Element) : List Char :=
  '<' :: (e.tag.toList ++ (e.attributes.flatMap writeAttribute ++ ['>']))

theorem startTag_append (e : Element) (rest : List Char) :
    e.startTag ++ rest =
      '<' :: (e.tag.toList ++ (e.attributes.flatMap writeAttribute ++ '>' :: rest)) := by
  simp [startTag]

variable {e : Element}

theorem readTo_startTag (h : e.IsWritable) (after : List Char) :
    ReadTo e.startTag after 0 ⟨none, [e.opened []], []⟩ := by
  have hsteps : Reading.Steps ⟨.start, .outset, _⟩ _ := steps_startTag h rfl rfl after
  rw [← startTag_append] at hsteps
  refine ⟨_, ?_, hsteps⟩
  rw [startTag_append]
  cases h with
  | intro tag names distinct values text children => exact preamble_tag tag _

theorem readTo_append_startTag (h : e.IsWritable) {before after : List Char} {depth : Nat}
    {b : Builder} (hscope : b.scope = []) (read : ReadTo before (e.startTag ++ after) depth b) :
    ReadTo (before ++ e.startTag) after (depth + 1) ⟨none, e.opened [] :: b.path, b.outside⟩ := by
  obtain ⟨rest, hpreamble, hsteps⟩ := read.steps
  have htag : Reading.Steps ⟨b, .content (depth + 1), _⟩ _ := steps_startTag h rfl hscope after
  rw [← startTag_append] at htag
  rw [← List.append_assoc] at hpreamble
  exact ⟨rest, hpreamble, hsteps.trans htag⟩

end Element

namespace Database

theorem parse_eq_ok_iff {text : String} {db : Database} :
    parse text = .ok db ↔ ∃ root, Node.parse text = .ok root ∧
      ofElement (.ofNode (·.uri?.isNone) root) = .ok db := by
  rw [parse, Element.parsePlain]
  cases Node.parse text <;> simp [bind, Except.bind]

/-- A document that has the same texts where texts are read has the same database. -/
theorem parse_of_bare {text : String} {root root' : Node} {db : Database}
    (hroot : Node.parse text = .ok root)
    (hsame : (Element.ofNode (·.uri?.isNone) root).bare isTextTag =
        (Element.ofNode (·.uri?.isNone) root').bare isTextTag)
    (hdb : ofElement (.ofNode (·.uri?.isNone) root') = .ok db) : parse text = .ok db := by
  refine parse_eq_ok_iff.mpr ⟨root, hroot, ?_⟩
  rw [← ofElement_bare, hsame, ofElement_bare, hdb]

theorem exists_parse_of_bare {text : String} {root root' : Node} {db : Database}
    (hroot : Node.parse text = .ok root)
    (hsame : (Element.ofNode (·.uri?.isNone) root).bare (fun _ => false) =
        (Element.ofNode (·.uri?.isNone) root').bare fun _ => false)
    (hdb : ofElement (.ofNode (·.uri?.isNone) root') = .ok db) : ∃ seen, parse text = .ok seen := by
  rw [ofElement_eq_failOr] at hdb
  have hfault : fault? (.ofNode (·.uri?.isNone) root) = none := by
    rw [← fault?_bare (fun _ => false), hsame, fault?_bare, ← faultOf_failOr (fault? _),
      hdb, faultOf_ok]
  refine ⟨read (.ofNode (·.uri?.isNone) root), parse_eq_ok_iff.mpr ⟨root, hroot, ?_⟩⟩
  rw [ofElement_eq_failOr, hfault]
  rfl

variable {before after comment : List Char} {depth : Nat} {e : OpenElement} {db : Database}

/-- With a comment put in, a document is accepted as before. Its database is the same, unless the
text of the element is read and a text goes on right after the comment that would be its leading
text or the rest of it. Inside of the leading text, a comment does what cutting out the rest of it
does. -/
theorem parse_commented (accepted : parse (String.ofList (before ++ after)) = .ok db)
    (place : CommentPlace before after depth e) (hcomment : IsComment comment) :
    ∃ seen, parse (String.ofList (before ++ (writeComment comment ++ after))) = .ok seen ∧
      ((isTextTag e.name.localName → takesText e.children = false) ∨
        ¬ Scan.ReadsText (.content (depth + 1)) after → seen = db) ∧
      ∀ text, e.children = [.text text] →
        ∃ rest, TextsTo depth after rest ∧ parse (String.ofList (before ++ rest)) = .ok seen := by
  obtain ⟨root, hroot, hdb⟩ := parse_eq_ok_iff.mp accepted
  obtain ⟨b, read, inside, root', hroot', hsame⟩ :=
    place.readsThrough (·.uri?.isNone) (fun _ => false) hcomment hroot (.inl nofun)
  obtain ⟨seen, hseen⟩ := exists_parse_of_bare hroot' hsame hdb
  refine ⟨seen, hseen, fun settled => ?_, fun text _ => ?_⟩
  · obtain ⟨-, -, -, root₁, hroot₁, hsame₁⟩ :=
      place.readsThrough (·.uri?.isNone) isTextTag hcomment hroot settled
    have hdb' := parse_of_bare hroot₁ hsame₁ hdb
    exact Except.ok.inj (hseen.symm.trans hdb')
  · obtain ⟨rest, texts⟩ := exists_textsTo depth after
    obtain ⟨root₂, hroot₂, hsame₂⟩ :=
      read.exists_root_of_cut (·.uri?.isNone) isTextTag hcomment inside texts hroot'
    obtain ⟨_, hread, hdb₂⟩ := parse_eq_ok_iff.mp hseen
    obtain rfl := Except.ok.inj (hroot'.symm.trans hread)
    exact ⟨rest, texts, parse_of_bare hroot₂ hsame₂ hdb₂⟩

/-! ### A text that is read -/

def selectAction : Element where
  tag := "permission"
  text := some "SELECT"

def readerPermissions : Element where
  tag := "permissions"
  attributes := [("user", "u")]
  children := [selectAction]

def readableTable : Element where
  tag := "table"
  attributes := [("name", "t")]
  children := [readerPermissions]

def readableTree : Element where
  tag := "d"
  children := [readableTable]

theorem isWritable_readableTree :
    readableTree.IsWritable ∧ readableTable.IsWritable ∧ readerPermissions.IsWritable ∧
      selectAction.IsWritable := by
  have one {e : Element} (h : e.IsWritable) : ∀ c ∈ [e], c.IsWritable := by
    simpa using h
  have haction : selectAction.IsWritable := .of_tests (by decide) rfl .nil (by decide) nofun
  have hpermissions : readerPermissions.IsWritable :=
    .of_tests (by decide) (by decide) (by decide) rfl (one haction)
  have htable : readableTable.IsWritable :=
    .of_tests (by decide) (by decide) (by decide) rfl (one hpermissions)
  exact ⟨.of_tests (by decide) rfl .nil rfl (one htable), htable, hpermissions, haction⟩

def fromSelect : List Char :=
  "ECT</permission></permissions></table></d>".toList

/-- The text of the tree up to the action. -/
def beforeAction : List Char :=
  readableTree.startTag ++ readableTable.startTag ++ readerPermissions.startTag

def fromAction : List Char :=
  selectAction.startTag ++ "SEL".toList ++ fromSelect

/-- The same text up to the middle of the action. -/
def intoSelect : List Char :=
  beforeAction ++ selectAction.startTag ++ "SEL".toList

theorem parse_readableTree :
    parse (String.ofList (intoSelect ++ fromSelect)) = .ok ⟨[⟨"t", [], [⟨"u", ["SELECT"]⟩]⟩]⟩ ∧
      parse (String.ofList (beforeAction ++ fromAction)) =
        .ok ⟨[⟨"t", [], [⟨"u", ["SELECT"]⟩]⟩]⟩ := by
  decide +kernel

theorem readTo_action (s : List Char) :
    ReadTo beforeAction s 2
      ⟨none, [readerPermissions.opened [], readableTable.opened [], readableTree.opened []],
        []⟩ := by
  obtain ⟨htree, htable, hpermissions, -⟩ := isWritable_readableTree
  exact Element.readTo_append_startTag hpermissions rfl
    (Element.readTo_append_startTag htable rfl (Element.readTo_startTag htree _))

theorem commentPlace_action :
    CommentPlace beforeAction fromAction 2 (readerPermissions.opened []) :=
  .between (readTo_action fromAction) rfl

theorem commentPlace_select :
    CommentPlace intoSelect fromSelect 3 (selectAction.opened [.text "SEL"]) := by
  obtain ⟨-, -, -, haction⟩ := isWritable_readableTree
  have whole : pieces "SEL".toList = .ok ("SEL".toList.map .plain) :=
    pieces_of_no_ampersand (by decide)
  exact .within (Element.readTo_append_startTag haction rfl (readTo_action _)) rfl (by decide)
    (by decide) whole

/-- Before the action a comment changes nothing, and inside of its text it does what cutting out the
rest does. -/
theorem parse_commented_readableTree :
    (CommentPlace beforeAction fromAction 2 (readerPermissions.opened []) ∧ IsComment "c".toList ∧
        parse (String.ofList (beforeAction ++ fromAction)) =
          .ok ⟨[⟨"t", [], [⟨"u", ["SELECT"]⟩]⟩]⟩ ∧
          parse (String.ofList (beforeAction ++ (writeComment "c".toList ++ fromAction))) =
            .ok ⟨[⟨"t", [], [⟨"u", ["SELECT"]⟩]⟩]⟩) ∧
      CommentPlace intoSelect fromSelect 3 (selectAction.opened [.text "SEL"]) ∧
        IsComment "c".toList ∧
        parse (String.ofList (intoSelect ++ fromSelect)) = .ok ⟨[⟨"t", [], [⟨"u", ["SELECT"]⟩]⟩]⟩ ∧
          ∃ rest, TextsTo 3 fromSelect rest ∧
            parse (String.ofList (intoSelect ++ (writeComment "c".toList ++ fromSelect))) =
              parse (String.ofList (intoSelect ++ rest)) := by
  obtain ⟨hselect, haction⟩ := parse_readableTree
  have hcomment : IsComment "c".toList := by decide
  obtain ⟨_, hseen, hsame, -⟩ := parse_commented haction commentPlace_action hcomment
  obtain ⟨_, hseen', -, hcut⟩ := parse_commented hselect commentPlace_select hcomment
  obtain rfl := hsame (.inl (by decide))
  obtain ⟨rest, texts, hrest⟩ := hcut "SEL" rfl
  exact ⟨⟨commentPlace_action, hcomment, haction, hseen⟩, commentPlace_select, hcomment,
    hselect, rest, texts, hseen'.trans hrest.symm⟩

/-- A comment inside of the action's text makes another action of it. -/
theorem comment_cuts_action :
    CommentPlace intoSelect fromSelect 3 (selectAction.opened [.text "SEL"]) ∧
      IsComment "c".toList ∧
      parse (String.ofList (intoSelect ++ fromSelect)) = .ok ⟨[⟨"t", [], [⟨"u", ["SELECT"]⟩]⟩]⟩ ∧
        parse (String.ofList (intoSelect ++ (writeComment "c".toList ++ fromSelect))) =
          .ok ⟨[⟨"t", [], [⟨"u", ["SEL"]⟩]⟩]⟩ :=
  ⟨commentPlace_select, by decide, parse_readableTree.1, by decide +kernel⟩

end Database

end SchemaDoc
