import Mathlib.Data.List.Nodup
import SchemaDoc.Proofs.Xml.Reading
import SchemaDoc.Proofs.Xml.Written
import SchemaDoc.Schema.Database

/-!
# Writing an element and reading it back

An element is written as a tag with its attributes, its text and its children, with nothing in
between (`Element.written`). An element whose names are plain and whose values a document may hold
(`Element.IsWritable`) is what its text is read as, and so the two lead to the same schema or to the
same fault (`Element.parse_written`). The proof follows the reader along the text: what it has built
when it comes to the end of an element is the element's node, put into whatever it was building
(`Element.steps_write`).
-/
namespace SchemaDoc

open Xml

namespace Element

mutual

def write : Element → List Char
  | ⟨tag, attributes, text, children⟩ =>
    '<' :: (tag.toList ++ (attributes.flatMap writeAttribute ++ '>' ::
      (text.elim [] writeText ++ (writeAll children ++ '<' :: '/' :: (tag.toList ++ ['>'])))))

def writeAll : List Element → List Char
  | [] => []
  | e :: rest => write e ++ writeAll rest

end

/-- The text of a document that has the element as its root. -/
def written (e : Element) : String :=
  String.ofList e.write

/-- What can be written in a document: plain names, none of which declares a namespace or is given
twice, and texts of characters that a document may hold. An empty text cannot be told from none. -/
inductive IsWritable : Element → Prop
  | intro {e : Element} (tag : IsPlainName e.tag)
      (names : ∀ a ∈ e.attributes, IsPlainName a.1 ∧ a.1 ≠ "xmlns")
      (distinct : (e.attributes.map Prod.fst).Nodup)
      (values : ∀ a ∈ e.attributes, ∀ c ∈ a.2.toList, isAllowed c)
      (text : ∀ t, e.text = some t → t ≠ "" ∧ ∀ c ∈ t.toList, isAllowed c)
      (children : ∀ c ∈ e.children, IsWritable c) : IsWritable e

theorem IsWritable.of_tests {e : Element} (tag : IsPlainName e.tag)
    (attributes : e.attributes.all fun a => IsPlainName a.1 ∧ a.1 ≠ "xmlns" ∧
        a.2.toList.all isAllowed)
    (distinct : (e.attributes.map Prod.fst).Nodup)
    (text : e.text.all fun t => t ≠ "" ∧ t.toList.all isAllowed)
    (children : ∀ c ∈ e.children, IsWritable c) : IsWritable e := by
  simp only [List.all_eq_true, decide_eq_true_eq] at attributes
  refine .intro tag (fun a ha => ⟨(attributes a ha).1, (attributes a ha).2.1⟩) distinct
    (fun a ha => (attributes a ha).2.2) (fun t ht => ?_) children
  simpa [ht] using text

/-! ### The node of an element -/

mutual

/-- The node that is read back as the element, with names that have no namespace. -/
def toNode : Element → Node
  | ⟨tag, attributes, text, children⟩ =>
    ⟨none, tag, attributes.map fun a => ⟨none, a.1, a.2⟩,
      (text.map Child.text).toList ++ toChildren children⟩

def toChildren : List Element → List (Child Node)
  | [] => []
  | e :: rest => .element (toNode e) :: toChildren rest

end

theorem write_append (e : Element) (rest : List Char) :
    e.write ++ rest = '<' :: (e.tag.toList ++ (e.attributes.flatMap writeAttribute ++ '>' ::
      (e.text.elim [] writeText ++
        (writeAll e.children ++ '<' :: '/' :: (e.tag.toList ++ '>' :: rest))))) := by
  obtain ⟨tag, attributes, text, children⟩ := e
  simp [write]

example : written ⟨"a", [("b", "<\t\"")], some "&", [⟨"c", [], none, []⟩]⟩ =
    "<a b=\"&#60;&#9;&#34;\">&#38;<c></c></a>" := by
  decide +kernel

theorem leadingText?_toChildren (es : List Element) : leadingText? (toChildren es) = none := by
  cases es <;> rfl

mutual

theorem ofNode_toNode {keep : Attribute → Bool} (hkeep : ∀ name value, keep ⟨none, name, value⟩)
    (e : Element) : ofNode keep e.toNode = e := by
  obtain ⟨tag, attributes, text, children⟩ := e
  have hattributes : ((attributes.map fun a => (⟨none, a.1, a.2⟩ : Attribute)).filter keep).map
      (fun a => (a.name, a.value)) = attributes := by
    have hall : ∀ a ∈ attributes.map fun a => (⟨none, a.1, a.2⟩ : Attribute), keep a := by
      simp only [List.forall_mem_map]
      exact fun a _ => hkeep a.1 a.2
    rw [List.filter_eq_self.mpr hall, List.map_map]
    exact List.map_id attributes
  cases text with
  | none =>
    simp [toNode, ofNode, hattributes, leadingText?_toChildren,
      ofChildren_toChildren hkeep children]
  | some t =>
    simp [toNode, ofNode, ofChildren, hattributes, leadingText?,
      ofChildren_toChildren hkeep children]

theorem ofChildren_toChildren {keep : Attribute → Bool}
    (hkeep : ∀ name value, keep ⟨none, name, value⟩) (es : List Element) :
    ofChildren keep (toChildren es) = es := by
  match es with
  | [] => rw [toChildren, ofChildren]
  | e :: rest =>
    rw [toChildren, ofChildren, ofNode_toNode hkeep e, ofChildren_toChildren hkeep rest]

end

/-! ### Reading a start tag -/

/-- The attributes that were read from a start tag, each with its mark, are those that were
written. -/
def AreReadFrom (read : List Assignment) (attributes : List (String × String)) : Prop :=
  read.map (fun a => (a.name, a.value)) = attributes.map fun a => (⟨"", a.1⟩, a.2)

theorem AreReadFrom.cons {read : List Assignment} {attributes : List (String × String)}
    (h : AreReadFrom read attributes) (a : String × String) (mark : Mark) :
    AreReadFrom (⟨⟨"", a.1⟩, a.2, mark⟩ :: read) (a :: attributes) := by
  rw [AreReadFrom, List.map_cons, List.map_cons, h]

theorem foldlM_addAttribute (before : List (String × String)) {read : List Assignment}
    {attributes : List (String × String)} (hread : AreReadFrom read attributes)
    (distinct : ((before ++ attributes).map Prod.fst).Nodup) :
    read.foldlM (addAttribute []) (before.map fun a => ⟨none, a.1, a.2⟩) =
      .ok ((before ++ attributes).map fun a => ⟨none, a.1, a.2⟩) := by
  induction attributes generalizing read before with
  | nil =>
    obtain rfl := List.map_eq_nil_iff.mp hread
    rw [List.append_nil]
    rfl
  | cons a attributes ih =>
    obtain ⟨r, read, rfl, hr, hmore⟩ := List.map_eq_cons_iff.mp hread
    obtain ⟨hname, hvalue⟩ := Prod.mk.inj hr
    have hnew : (before.map fun a => (⟨none, a.1, a.2⟩ : Attribute)).any
        (fun b => b.uri? == none && b.name == a.1) = false := by
      rw [List.map_append, List.map_cons, List.nodup_append] at distinct
      simp only [List.any_map, List.any_eq_false, Function.comp, Bool.and_eq_true,
        beq_iff_eq, true_and]
      exact fun b hb => distinct.2.2 b.1 (List.mem_map_of_mem hb) a.1 List.mem_cons_self
    have hadd : addAttribute [] (before.map fun a => ⟨none, a.1, a.2⟩) r =
        .ok ((before ++ [a]).map fun a => ⟨none, a.1, a.2⟩) := by
      have huri : attributeNamespace [] "" r.mark = .ok none := rfl
      simp only [addAttribute, hname, hvalue, huri, bind, Except.bind, hnew,
        Bool.false_eq_true, if_false]
      rw [List.map_append]
      rfl
    rw [List.append_cons] at distinct ⊢
    rw [List.foldlM_cons, hadd]
    exact ih _ hmore distinct

theorem resolve_of_areReadFrom {name : String} {mark : Mark} {read : List Assignment}
    {attributes : List (String × String)} (hread : AreReadFrom read attributes)
    (distinct : (attributes.map Prod.fst).Nodup) :
    StartTag.resolve ⟨⟨"", name⟩, mark, read, []⟩ [] =
      .ok ⟨none, attributes.map fun a => ⟨none, a.1, a.2⟩, []⟩ := by
  have hfold : read.foldlM (addAttribute ([] ++ [])) [] =
      .ok (attributes.map fun a => ⟨none, a.1, a.2⟩) := foldlM_addAttribute [] hread distinct
  rw [StartTag.resolve]
  simp only [hfold]
  rfl

theorem steps_attributes {attributes : List (String × String)}
    (names : ∀ a ∈ attributes, IsPlainName a.1 ∧ a.1 ≠ "xmlns")
    (values : ∀ a ∈ attributes, ∀ c ∈ a.2.toList, isAllowed c) (b : Builder) (tag : StartTag)
    (depth : Nat) (rest : List Char) :
    ∃ read, AreReadFrom read attributes ∧
      Reading.Steps
        ⟨{ b with tag? := some tag }, .tag depth, attributes.flatMap writeAttribute ++ rest⟩
        ⟨{ b with tag? := some { tag with attributes := tag.attributes ++ read } }, .tag depth,
          rest⟩ := by
  induction attributes generalizing tag with
  | nil => exact ⟨[], rfl, by simpa using .refl⟩
  | cons a attributes ih =>
    obtain ⟨hname, hxmlns⟩ := names a List.mem_cons_self
    obtain ⟨mark, hstep⟩ : ∃ mark, Scan.step (.tag depth)
        (writeAttribute a ++ (attributes.flatMap writeAttribute ++ rest)) =
          .ok (some (.assignment ⟨"", a.1⟩ a.2 mark, .tag depth),
              attributes.flatMap writeAttribute ++ rest) :=
      ⟨_, Scan.step_assignment hname (values a List.mem_cons_self) depth _⟩
    have hassign : tag.assign ⟨"", a.1⟩ a.2 mark =
        .ok { tag with attributes := tag.attributes ++ [⟨⟨"", a.1⟩, a.2, mark⟩] } := by
      rw [StartTag.assign, if_neg (by simp), if_neg hxmlns]
    have hpush : Builder.push { b with tag? := some tag } (.assignment ⟨"", a.1⟩ a.2 mark) =
        .ok { b with
          tag? := some { tag with attributes := tag.attributes ++ [⟨⟨"", a.1⟩, a.2, mark⟩] } } := by
      simp only [Builder.push, hassign]
      rfl
    obtain ⟨read, hread, hsteps⟩ := ih (fun a ha => names a (List.mem_cons_of_mem _ ha))
      (fun a ha => values a (List.mem_cons_of_mem _ ha))
      { tag with attributes := tag.attributes ++ [⟨⟨"", a.1⟩, a.2, mark⟩] }
    refine ⟨_, hread.cons a mark, ?_⟩
    rw [List.flatMap_cons, List.append_assoc, List.append_cons]
    exact .head (.token hstep hpush) hsteps

theorem exists_cons_of_attributes (attributes : List (String × String)) (rest : List Char) :
    ∃ c s, attributes.flatMap writeAttribute ++ '>' :: rest = c :: s ∧ ¬ isNamePart c := by
  cases attributes with
  | nil => exact ⟨'>', rest, rfl, by decide⟩
  | cons a more => exact ⟨' ', _, rfl, by decide⟩

/-- An element whose start tag has been read, its last child first. -/
def opened (e : Element) (children : List (Child Node)) : OpenElement :=
  ⟨⟨"", e.tag⟩, ⟨none, e.attributes.map fun a => ⟨none, a.1, a.2⟩, []⟩, children⟩

theorem steps_startTag {e : Element} (h : e.IsWritable) {mode : Mode} {depth : Nat}
    (hmode : mode.entered? = some (.tag depth)) {b : Builder} (hscope : b.scope = [])
    (rest : List Char) :
    Reading.Steps
      ⟨b, mode, '<' :: (e.tag.toList ++ (e.attributes.flatMap writeAttribute ++ '>' :: rest))⟩
      ⟨⟨none, e.opened [] :: b.path, b.outside⟩, .content (depth + 1), rest⟩ := by
  cases h with
  | intro tag names distinct values text children =>
    obtain ⟨mark, hstep⟩ : ∃ mark, Scan.step mode
        ('<' :: (e.tag.toList ++ (e.attributes.flatMap writeAttribute ++ '>' :: rest))) =
          .ok (some (.startTag ⟨"", e.tag⟩ mark, .tag depth),
              e.attributes.flatMap writeAttribute ++ '>' :: rest) := by
      obtain ⟨c, s, hs, hc⟩ := exists_cons_of_attributes e.attributes rest
      rw [hs]
      exact ⟨_, Scan.step_startTag hmode tag hc⟩
    have hbegin : b.push (.startTag ⟨"", e.tag⟩ mark) =
        .ok { b with tag? := some ⟨⟨"", e.tag⟩, mark, [], []⟩ } := rfl
    obtain ⟨read, hread, hsteps⟩ :=
      steps_attributes names values b ⟨⟨"", e.tag⟩, mark, [], []⟩ depth ('>' :: rest)
    have hend : Builder.push { b with tag? := some ⟨⟨"", e.tag⟩, mark, read, []⟩ }
        (.startTagEnd false) = .ok ⟨none, e.opened [] :: b.path, b.outside⟩ := by
      have hscope' : Builder.scope { b with tag? := some ⟨⟨"", e.tag⟩, mark, read, []⟩ } = [] :=
        hscope
      simp only [Builder.push, Builder.endStartTag, hscope', resolve_of_areReadFrom hread distinct]
      rfl
    exact .head (.token hstep hbegin) (hsteps.tail (.token (Scan.step_startTagEnd depth rest) hend))

theorem close_opened (e : Element) :
    (e.opened ((toChildren e.children).reverse ++ (e.text.map Child.text).toList)).close =
      e.toNode := by
  obtain ⟨tag, attributes, text, children⟩ := e
  cases text <;> simp [opened, OpenElement.close, toNode]

/-! ### Reading a whole element -/

/-- A reader that comes to the text of the element takes in its node. -/
def IsReadBack (e : Element) : Prop :=
  ∀ (mode : Mode) (depth : Nat) (b : Builder) (rest : List Char),
    mode.entered? = some (.tag depth) → b.tag? = none → b.scope = [] →
      Reading.Steps ⟨b, mode, e.write ++ rest⟩
        ⟨b.onChildren (.element e.toNode :: ·), .content depth, rest⟩

theorem steps_writeAll {es : List Element} (h : ∀ e ∈ es, e.IsReadBack) {b : Builder}
    (htag : b.tag? = none) (hscope : b.scope = []) (depth : Nat) (rest : List Char) :
    Reading.Steps ⟨b, .content (depth + 1), writeAll es ++ rest⟩
      ⟨b.onChildren ((toChildren es).reverse ++ ·), .content (depth + 1), rest⟩ := by
  induction es generalizing b with
  | nil =>
    have hsame : b.onChildren ((toChildren []).reverse ++ ·) = b := b.onChildren_id
    rw [hsame]
    exact .refl
  | cons e es ih =>
    have hfirst :=
      h e List.mem_cons_self (.content (depth + 1)) _ b (writeAll es ++ rest) rfl htag hscope
    have hmore := ih (fun e he => h e (List.mem_cons_of_mem _ he))
      (b.tag?_onChildren (.element e.toNode :: ·) ▸ htag)
      (b.scope_onChildren (.element e.toNode :: ·) ▸ hscope)
    have hjoin : ((toChildren es).reverse ++ ·) ∘ (Child.element e.toNode :: ·) =
        ((toChildren (e :: es)).reverse ++ ·) := by
      funext children
      simp [toChildren]
    rw [Builder.onChildren_onChildren, hjoin] at hmore
    rw [writeAll, List.append_assoc]
    exact hfirst.trans hmore

theorem steps_text {e : Element} (h : ∀ t, e.text = some t → t ≠ "" ∧ ∀ c ∈ t.toList, isAllowed c)
    (path : List OpenElement) (outside : List (Child Node)) (depth : Nat) (rest : List Char) :
    Reading.Steps
      ⟨⟨none, e.opened [] :: path, outside⟩, .content (depth + 1),
        e.text.elim [] writeText ++ '<' :: rest⟩
      ⟨⟨none, e.opened (e.text.map Child.text).toList :: path, outside⟩, .content (depth + 1),
        '<' :: rest⟩ := by
  cases ht : e.text with
  | none => exact .refl
  | some t =>
    obtain ⟨hne, allowed⟩ := h t ht
    exact .single (.token (Scan.step_text hne allowed depth rest) rfl)

theorem exists_cons_of_writeAll (es : List Element) (tail : List Char) :
    ∃ rest, writeAll es ++ '<' :: tail = '<' :: rest := by
  cases es with
  | nil => exact ⟨tail, rfl⟩
  | cons e es =>
    obtain ⟨tag, attributes, text, children⟩ := e
    rw [writeAll, write]
    exact ⟨_, rfl⟩

/-- The induction is on the tree; the reader stands in front of the element in any state that opens
one. -/
theorem IsWritable.isReadBack {e : Element} (h : e.IsWritable) : e.IsReadBack := by
  induction h with
  | @intro e tag names distinct values text children ih =>
    intro mode depth b rest hmode htag hscope
    have hstart := steps_startTag (.intro tag names distinct values text children) hmode hscope
      (e.text.elim [] writeText ++
        (writeAll e.children ++ '<' :: '/' :: (e.tag.toList ++ '>' :: rest)))
    obtain ⟨tail, htail⟩ :=
      exists_cons_of_writeAll e.children ('/' :: (e.tag.toList ++ '>' :: rest))
    have htext := steps_text text b.path b.outside depth tail
    rw [← htail] at htext
    have hchildren := steps_writeAll ih
      (b := ⟨none, e.opened (e.text.map Child.text).toList :: b.path, b.outside⟩) rfl rfl depth
      ('<' :: '/' :: (e.tag.toList ++ '>' :: rest))
    have hend : Reading.Step
        ⟨⟨none, e.opened ((toChildren e.children).reverse ++ (e.text.map Child.text).toList) ::
          b.path, b.outside⟩, .content (depth + 1), '<' :: '/' :: (e.tag.toList ++ '>' :: rest)⟩
        ⟨b.onChildren (.element e.toNode :: ·), .content depth, rest⟩ := by
      refine .token (Scan.step_endTag tag depth rest) ?_
      obtain ⟨_, path, outside⟩ := b
      cases htag
      simp only [Builder.push, close_opened]
      exact if_pos rfl
    rw [write_append]
    exact hstart.trans (htext.trans (hchildren.tail hend))

theorem preamble_tag {tag : String} (h : IsPlainName tag) (s : List Char) :
    Scan.preamble ('<' :: (tag.toList ++ s)) = .ok ((), '<' :: (tag.toList ++ s)) := by
  obtain ⟨c, word, hword, hc⟩ := h.exists_cons
  have hmark : c ≠ '?' := by
    rintro rfl
    revert hc
    decide
  simp [hword, Scan.preamble, Text.strip?, Ne.symm hmark]

theorem IsWritable.parse_node {e : Element} (h : e.IsWritable) :
    Node.parse e.written = .ok e.toNode := by
  rw [Node.parse_eq_ok_iff, written, String.toList_ofList]
  have hsteps := h.isReadBack .outset 0 .start [] rfl rfl rfl
  have hpreamble : Scan.preamble (e.write ++ []) = .ok ((), e.write ++ []) := by
    rw [write_append]
    cases h with
    | intro tag names distinct values text children => exact preamble_tag tag _
  rw [List.append_nil] at hsteps hpreamble
  exact ⟨e.write, _, hpreamble, hsteps, ⟨⟨_, rfl⟩, rfl⟩⟩

/-- What was made by hand and written is what it was made as, and is loaded in the same way. -/
theorem parse_written (e : Element) (h : e.IsWritable) :
    parse e.written = .ok e ∧ Database.parse e.written = Database.ofElement e := by
  have hparse : parse e.written = .ok e := by
    rw [parse, h.parse_node]
    exact congrArg _ (ofNode_toNode (fun _ _ => rfl) e)
  have hplain : parsePlain e.written = .ok e := by
    rw [parsePlain, h.parse_node]
    exact congrArg _ (ofNode_toNode (fun _ _ => rfl) e)
  refine ⟨hparse, ?_⟩
  rw [Database.parse, hplain]
  rfl

/-- A database in which names, texts and attributes hold markup, quotes and line ends. -/
def markupTree : Element where
  tag := "database"
  children := [{
    tag := "table"
    attributes := [("name", "<\"&'>")]
    text := some "]]>\r\n"
    children := [{
      tag := "column"
      attributes := [("name", "a\tb"), ("type", "int"), ("key", "foreign")]
      children := [{ tag := "fkey_table", text := some "r&amp;\r" }, { tag := "é.비-1" }] }] }]

theorem isWritable_markupTree : markupTree.IsWritable := by
  have one {e : Element} (h : e.IsWritable) : ∀ c ∈ [e], c.IsWritable := by
    simpa using h
  refine .of_tests (by decide) rfl .nil rfl (one ?table)
  refine .of_tests (by decide) (by decide) (by decide) (by decide) (one ?column)
  refine .of_tests (by decide) (by decide) (by decide) rfl ?_
  rw [List.forall_mem_cons]
  exact ⟨.of_tests (by decide) rfl .nil (by decide) nofun,
    one (.of_tests (by decide) rfl .nil rfl nofun)⟩

theorem parse_written_markupTree :
    markupTree.IsWritable ∧ parse markupTree.written = .ok markupTree ∧
      Database.parse markupTree.written = Database.ofElement markupTree :=
  ⟨isWritable_markupTree, parse_written _ isWritable_markupTree⟩

end Element

end SchemaDoc
