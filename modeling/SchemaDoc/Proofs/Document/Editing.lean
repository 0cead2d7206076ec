import SchemaDoc.Proofs.LastItem
import SchemaDoc.Proofs.Schema.Namespaces

/-!
# Elements that are made step by step

An element is begun by hand or read from a text, any number of times, and gets attributes, texts and
children in between. Its attributes behave as a map whose keys have an order, also where a text
gives two of them one name: each has the value that it was given last since the element was begun,
or else that of the first attribute of its name in the text
(`Edit.attributes_behave_as_ordered_map`).
-/
namespace SchemaDoc

/-! ### A value in a list of named values -/

theorem assignValue_of_not_mem {name : String} {l : List (String × String)}
    (h : name ∉ l.map Prod.fst) (value : String) :
    assignValue name value l = l ++ [(name, value)] := by
  induction l with
  | nil => rfl
  | cons a rest ih =>
    obtain ⟨n, v⟩ := a
    rw [List.map_cons, List.mem_cons, not_or] at h
    rw [assignValue, if_neg (Ne.symm h.1), ih h.2, List.cons_append]

theorem assignValue_append_cons {name : String} {front : List (String × String)}
    (h : name ∉ front.map Prod.fst) (value old : String) (behind : List (String × String)) :
    assignValue name value (front ++ (name, old) :: behind) = front ++ (name, value) :: behind := by
  induction front with
  | nil => rw [List.nil_append, assignValue, if_pos rfl, List.nil_append]
  | cons a rest ih =>
    obtain ⟨n, v⟩ := a
    rw [List.map_cons, List.mem_cons, not_or] at h
    rw [List.cons_append, assignValue, if_neg (Ne.symm h.1), ih h.2, List.cons_append]

theorem assignValue_eq_append_iff {name value : String} {l : List (String × String)} :
    assignValue name value l = l ++ [(name, value)] ↔ name ∉ l.map Prod.fst := by
  constructor
  · intro h hmem
    have hnames := map_fst_assignValue name value l
    rw [h, if_pos hmem, List.map_append] at hnames
    simpa using congrArg List.length hnames
  · intro h
    exact assignValue_of_not_mem h value

/-- One attribute gets a value, in the place of its first one or behind all others, and all else
stays. -/
structure Element.GetsValue (name value : String) (before after : Element) : Prop where
  tag : after.tag = before.tag
  text : after.text = before.text
  children : after.children = before.children
  given : after.attribute? name = some value
  others : ∀ other, other ≠ name → after.attribute? other = before.attribute? other
  replaced : ∀ front old behind, before.attributes = front ++ (name, old) :: behind →
    name ∉ front.map Prod.fst → after.attributes = front ++ (name, value) :: behind
  names : name ∈ before.attributes.map Prod.fst →
    after.attributes.map Prod.fst = before.attributes.map Prod.fst
  appended : after.attributes = before.attributes ++ [(name, value)] ↔
    name ∉ before.attributes.map Prod.fst

theorem Element.getsValue_withAttribute (e : Element) (name value : String) :
    GetsValue name value e (e.withAttribute name value) where
  tag := rfl
  text := rfl
  children := rfl
  given := by rw [attribute?_withAttribute, if_pos rfl]
  others other h := by rw [attribute?_withAttribute, if_neg h]
  replaced front old behind h hfront := by rw [withAttribute, h, assignValue_append_cons hfront]
  names h := by rw [withAttribute, map_fst_assignValue, if_pos h]
  appended := assignValue_eq_append_iff

/-- A step in making an element. -/
inductive Edit
  | new (tag : String)
  | parse (text : String)
  | withAttribute (name value : String)
  | withText (text : String)
  | withChild (child : Element)

namespace Edit

/-- The element after a step. A text that cannot be read leaves it as it is. -/
def apply (e : Element) : Edit → Element
  | .new tag => { tag }
  | .parse text => (Element.parse text).toOption.getD e
  | .withAttribute name value => e.withAttribute name value
  | .withText text => e.withText text
  | .withChild child => e.withChild child

/-- The element after steps that start from the empty one. -/
def run (edits : List Edit) : Element :=
  edits.foldl apply {}

/-- A step that begins the element anew, with no attributes or with those of the root of a text. -/
inductive Begins : Edit → List Xml.Attribute → Prop
  | new (tag : String) : Begins (.new tag) []
  | parse {text : String} {root : Xml.Node} (h : Xml.Node.parse text = .ok root) :
    Begins (.parse text) root.attributes

def Assigns (name : String) (x : Edit) : Prop :=
  ∃ value, x = .withAttribute name value

/-- The attributes with which the element was begun for the last time, and the steps since then. -/
inductive Began : List Edit → List Xml.Attribute → List Edit → Prop
  | never {edits : List Edit} (h : ∀ x ∈ edits, ∀ attributes, ¬x.Begins attributes) :
      Began edits [] edits
  | anew {before since : List Edit} {x : Edit} {attributes : List Xml.Attribute}
      (hx : x.Begins attributes) (h : ∀ y ∈ since, ∀ attributes, ¬y.Begins attributes) :
      Began (before ++ x :: since) attributes since

/-- The value of an attribute after steps that do not begin the element anew: the one that it was
given last, or else that of the first attribute of its name at the beginning. -/
inductive ValueAfter (attributes : List Xml.Attribute) (name : String) (since : List Edit) :
    Option String → Prop
  | assigned {value : String} (h : IsLastWith (Assigns name) since (.withAttribute name value)) :
    ValueAfter attributes name since (some value)
  | original (h : ∀ x ∈ since, ¬x.Assigns name) :
    ValueAfter attributes name since ((attributes.find? (·.name = name)).map (·.value))

/-! ### What one step does -/

theorem attribute?_apply_of_begins {x : Edit} {attributes : List Xml.Attribute}
    (h : x.Begins attributes) (e : Element) (name : String) :
    (x.apply e).attribute? name = (attributes.find? (·.name = name)).map (·.value) := by
  cases h with
  | new tag => rfl
  | @parse text root h =>
    have hparse : Element.parse text = .ok (.ofNode (fun _ => true) root) := by
      rw [Element.parse, h]
    rw [apply, hparse, Except.toOption, Option.getD_some, Element.attribute?_ofNode,
      Xml.Node.attribute?]
    simp [Bool.beq_eq_decide_eq]

/-- A step keeps an attribute if it neither begins the element anew nor gives a value to this
attribute. -/
theorem attribute?_apply {x : Edit} {name : String} (hbegins : ∀ attributes, ¬x.Begins attributes)
    (hassigns : ¬x.Assigns name) (e : Element) :
    (x.apply e).attribute? name = e.attribute? name := by
  cases x with
  | new tag => exact absurd (.new tag) (hbegins [])
  | parse text =>
    cases h : Xml.Node.parse text with
    | ok root => exact absurd (.parse h) (hbegins root.attributes)
    | error fault =>
      have hparse : Element.parse text = .error (.malformedDocument fault) := by
        rw [Element.parse, h]
      rw [apply, hparse, Except.toOption, Option.getD_none]
  | withAttribute other value =>
    have hne : name ≠ other := fun heq => hassigns ⟨value, by rw [heq]⟩
    rw [apply, Element.attribute?_withAttribute, if_neg hne]
  | withText text => rfl
  | withChild child => rfl

/-! ### What a run comes to -/

theorem attribute?_foldl {edits : List Edit} {name : String}
    (hbegins : ∀ x ∈ edits, ∀ attributes, ¬x.Begins attributes)
    (hassigns : ∀ x ∈ edits, ¬x.Assigns name) (e : Element) :
    (edits.foldl apply e).attribute? name = e.attribute? name := by
  induction edits generalizing e with
  | nil => rfl
  | cons x edits ih =>
    rw [List.forall_mem_cons] at hbegins hassigns
    rw [List.foldl_cons, ih hbegins.2 hassigns.2, attribute?_apply hbegins.1 hassigns.1]

theorem exists_began (edits : List Edit) : ∃ attributes since, Began edits attributes since := by
  rcases forall_not_or_exists_isLastWith (fun x => ∃ attributes, Begins x attributes) edits with
    hnone | ⟨x, hx⟩
  · exact ⟨[], edits, .never fun x hx attributes h => hnone x hx ⟨attributes, h⟩⟩
  · obtain ⟨before, since, rfl, ⟨attributes, hbegins⟩, hsince⟩ := hx
    exact ⟨attributes, since, .anew hbegins fun y hy attributes h => hsince y hy ⟨attributes, h⟩⟩

theorem exists_valueAfter (attributes : List Xml.Attribute) (name : String) (since : List Edit) :
    ∃ value?, ValueAfter attributes name since value? := by
  rcases forall_not_or_exists_isLastWith (Assigns name) since with hnone | ⟨x, hx⟩
  · exact ⟨_, .original hnone⟩
  · obtain ⟨value, rfl⟩ := hx.holds
    exact ⟨_, .assigned hx⟩

theorem Began.exists_run_eq {edits since : List Edit} {attributes : List Xml.Attribute}
    (h : Began edits attributes since) :
    ∃ e, run edits = since.foldl apply e ∧ (∀ x ∈ since, ∀ attributes, ¬x.Begins attributes) ∧
      ∀ name, e.attribute? name = (attributes.find? (·.name = name)).map (·.value) := by
  cases h with
  | never h => exact ⟨{}, rfl, h, fun _ => rfl⟩
  | @anew before since x attributes hx h =>
    refine ⟨x.apply (run before), ?_, h, attribute?_apply_of_begins hx (run before)⟩
    rw [run, List.foldl_append, List.foldl_cons, run]

theorem ValueAfter.attribute?_foldl {since : List Edit} {attributes : List Xml.Attribute}
    {name : String} {value? : Option String} (h : ValueAfter attributes name since value?)
    (hbegins : ∀ x ∈ since, ∀ attributes, ¬x.Begins attributes) {e : Element}
    (he : e.attribute? name = (attributes.find? (·.name = name)).map (·.value)) :
    (since.foldl apply e).attribute? name = value? := by
  cases h with
  | @assigned value h =>
    obtain ⟨earlier, later, rfl, -, hlater⟩ := h
    rw [List.forall_mem_append, List.forall_mem_cons] at hbegins
    rw [List.foldl_append, List.foldl_cons, Edit.attribute?_foldl hbegins.2.2 hlater, apply,
      Element.attribute?_withAttribute, if_pos rfl]
  | original h => rw [Edit.attribute?_foldl hbegins h, he]

theorem Began.attribute?_run_eq_iff {edits since : List Edit} {attributes : List Xml.Attribute}
    (h : Began edits attributes since) {name : String} {value? : Option String} :
    (run edits).attribute? name = value? ↔ ValueAfter attributes name since value? := by
  obtain ⟨e, hrun, hbegins, he⟩ := h.exists_run_eq
  rw [hrun]
  constructor
  · rintro rfl
    obtain ⟨value?, hvalue⟩ := exists_valueAfter attributes name since
    rwa [hvalue.attribute?_foldl hbegins (he name)]
  · intro hvalue
    exact hvalue.attribute?_foldl hbegins (he name)

/-- After any run an attribute has the value that it was given last since the element was begun, or
else that of the first attribute of its name at the beginning, if there is one. One more value
changes nothing else, and is put behind all others exactly if there is none of its name. -/
theorem attributes_behave_as_ordered_map (edits : List Edit) :
    (∃ attributes since, Began edits attributes since) ∧
      (∀ attributes since, Began edits attributes since → ∀ name value?,
        (run edits).attribute? name = value? ↔ ValueAfter attributes name since value?) ∧
      ∀ name value, Element.GetsValue name value (run edits)
        (run (edits ++ [.withAttribute name value])) := by
  refine ⟨exists_began edits, fun _ _ h _ _ => h.attribute?_run_eq_iff, fun name value => ?_⟩
  have hrun : run (edits ++ [.withAttribute name value]) =
      (run edits).withAttribute name value := by
    rw [run, List.foldl_append, List.foldl_cons, List.foldl_nil, ← run, apply]
  rw [hrun]
  exact (run edits).getsValue_withAttribute name value

/-- A text whose root has a name twice, once with a namespace. -/
def twiceNamed : String :=
  "<column xmlns:p=\"u\" p:name=\"a\" type=\"int\" name=\"b\"/>"

theorem exists_root_twiceNamed :
    ∃ root, Xml.Node.parse twiceNamed = .ok root ∧
      root.attributes = [⟨some "u", "name", "a"⟩, ⟨none, "type", "int"⟩, ⟨none, "name", "b"⟩] := by
  have hparse : (Xml.Node.parse twiceNamed).map (·.attributes) =
      .ok [⟨some "u", "name", "a"⟩, ⟨none, "type", "int"⟩, ⟨none, "name", "b"⟩] := by
    decide +kernel
  cases hroot : Xml.Node.parse twiceNamed with
  | error fault =>
    rw [hroot] at hparse
    cases hparse
  | ok root =>
    rw [hroot] at hparse
    exact ⟨root, rfl, Except.ok.inj hparse⟩

/-- Steps after a text has been read. The text among them cannot be read. -/
def laterSteps : List Edit :=
  [.withAttribute "type" "text", .withAttribute "type" "varchar", .parse "<column", .withText "x",
    .withAttribute "key" "primary"]

theorem not_begins_of_mem_laterSteps : ∀ x ∈ laterSteps, ∀ attributes, ¬x.Begins attributes := by
  have hbroken : ∀ attributes, ¬(parse "<column").Begins attributes := by
    intro attributes h
    cases h with
    | parse h =>
      have herror : (Xml.Node.parse "<column").isOk = false := by decide +kernel
      rw [h] at herror
      cases herror
  simp only [laterSteps, List.forall_mem_cons]
  exact ⟨nofun, nofun, hbroken, nofun, nofun, nofun⟩

theorem attributes_behave_as_ordered_map_twiceNamed :
    ∃ attributes edits, edits = [.withAttribute "name" "c", .parse twiceNamed] ++ laterSteps ∧
      Began edits attributes laterSteps ∧ (run edits).attribute? "name" = some "a" ∧
      (run edits).attribute? "type" = some "varchar" ∧ (run edits).attribute? "length" = none ∧
      (run (edits ++ [.withAttribute "name" "d"])).attributes =
        [("name", "d"), ("type", "varchar"), ("name", "b"), ("key", "primary")] := by
  let edits : List Edit := [.withAttribute "name" "c", .parse twiceNamed] ++ laterSteps
  obtain ⟨root, hroot, hattributes⟩ := exists_root_twiceNamed
  have hbegan : Began edits root.attributes laterSteps :=
    @Began.anew [.withAttribute "name" "c"] laterSteps _ _ (.parse hroot)
      not_begins_of_mem_laterSteps
  rw [hattributes] at hbegan
  obtain ⟨-, hvalues, hgets⟩ := attributes_behave_as_ordered_map edits
  refine ⟨_, edits, rfl, hbegan, ?_, ?_, ?_, ?_⟩
  · exact (hvalues _ _ hbegan "name" _).mpr (.original (by simp [laterSteps, Assigns]))
  · refine (hvalues _ _ hbegan "type" _).mpr (.assigned ?_)
    exact ⟨[.withAttribute "type" "text"], _, rfl, ⟨_, rfl⟩, by simp [Assigns]⟩
  · exact (hvalues _ _ hbegan "length" _).mpr (.original (by simp [laterSteps, Assigns]))
  · exact (hgets "name" "d").replaced [] "a" _ (by decide +kernel) (by simp)

end Edit

end SchemaDoc
