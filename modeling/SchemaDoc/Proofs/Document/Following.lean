import Mathlib.Data.List.Forall2
import Mathlib.Tactic.SplitIfs
import SchemaDoc.Document.Element
import SchemaDoc.Proofs.Traversal
import SchemaDoc.Proofs.Xml.Reading
import SchemaDoc.Proofs.Xml.Transfer

/-!
# Readers that build alike

Two readers may come to the same place with trees that differ in marks, in comments and in texts
that nobody asks for. Which texts are asked for is told by the tags of their elements
(`Element.bare`). While they read on alike, the trees stay alike (`Follows.push`), provided that a
text which comes next adds to the leading text of both or of neither. So both come to the end, and
their roots are the same but for the texts that nobody asks for (`Follows.ends`).
-/
namespace SchemaDoc

open Xml

namespace Element

mutual

/-- The element without its texts, apart from those of the elements whose tags are told. -/
def bare (told : String → Bool) : Element → Element
  | ⟨tag, attributes, text, children⟩ =>
    ⟨tag, attributes, if told tag then text else none, bareAll told children⟩

def bareAll (told : String → Bool) : List Element → List Element
  | [] => []
  | e :: rest => bare told e :: bareAll told rest

end

theorem bareAll_eq_map (told : String → Bool) (es : List Element) :
    bareAll told es = es.map (bare told) := by
  induction es with
  | nil => rw [bareAll, List.map_nil]
  | cons e es ih => rw [bareAll, List.map_cons, ih]

end Element

namespace Xml

/-! ### Start tags -/

/-- Start tags that differ in their marks alone. -/
structure StartTag.Alike (a b : StartTag) : Prop where
  name : b.name = a.name
  attributes : List.Forall₂ (fun x y : Assignment => y.name = x.name ∧ y.value = x.value)
    a.attributes b.attributes
  declarations : b.declarations = a.declarations

namespace StartTag.Alike

variable {a b c : StartTag}

theorem begin {name : QName} {mark : Mark} (mark' : Mark) (h : StartTag.begin name mark = .ok a) :
    ∃ b, StartTag.begin name mark' = .ok b ∧ a.Alike b := by
  unfold StartTag.begin at h ⊢
  split_ifs at h ⊢
  cases h
  exact ⟨_, rfl, rfl, .nil, rfl⟩

theorem declare (h : a.Alike b) {name uri : String} {mark : Mark} (mark' : Mark)
    (hc : a.declare name uri mark = .ok c) : ∃ d, b.declare name uri mark' = .ok d ∧ c.Alike d := by
  unfold StartTag.declare at hc ⊢
  rw [h.declarations]
  split_ifs at hc ⊢ <;> cases hc
  · exact ⟨_, rfl, h⟩
  · exact ⟨_, rfl, h.name, h.attributes, rfl⟩

theorem declareDefault (h : a.Alike b) {uri : String} {mark : Mark} (mark' : Mark)
    (hc : a.declareDefault uri mark = .ok c) :
    ∃ d, b.declareDefault uri mark' = .ok d ∧ c.Alike d := by
  unfold StartTag.declareDefault at hc ⊢
  rw [h.declarations]
  split_ifs at hc ⊢
  cases hc
  exact ⟨_, rfl, h.name, h.attributes, rfl⟩

theorem assign (h : a.Alike b) {name : QName} {value : String} {mark : Mark} (mark' : Mark)
    (hc : a.assign name value mark = .ok c) :
    ∃ d, b.assign name value mark' = .ok d ∧ c.Alike d := by
  unfold StartTag.assign at hc ⊢
  split_ifs at hc ⊢
  · exact h.declare mark' hc
  · exact h.declareDefault mark' hc
  · cases hc
    exact ⟨_, rfl, h.name, List.rel_append h.attributes (.cons ⟨rfl, rfl⟩ .nil), h.declarations⟩

theorem attributeNamespace {scope : Scope} {qualifier : String} {mark : Mark} (mark' : Mark)
    {uri? : Option String} (h : Xml.attributeNamespace scope qualifier mark = .ok uri?) :
    Xml.attributeNamespace scope qualifier mark' = .ok uri? := by
  unfold Xml.attributeNamespace at h ⊢
  split_ifs at h ⊢
  · exact h
  · exact h
  · split at h
    next => exact h
    next => cases h

theorem elementNamespace {scope : Scope} {qualifier : String} {mark : Mark} (mark' : Mark)
    {uri? : Option String} (h : Xml.elementNamespace scope qualifier mark = .ok uri?) :
    Xml.elementNamespace scope qualifier mark' = .ok uri? := by
  unfold Xml.elementNamespace at h ⊢
  split at h
  next => exact h
  next =>
    split_ifs at h ⊢
    exact h

theorem addAttribute {scope : Scope} {before after : List Attribute} {x y : Assignment}
    (hname : y.name = x.name) (hvalue : y.value = x.value)
    (h : Xml.addAttribute scope before x = .ok after) :
    Xml.addAttribute scope before y = .ok after := by
  unfold Xml.addAttribute at h ⊢
  obtain ⟨uri?, huri, h⟩ := bind_eq_ok_iff.mp h
  rw [hname, hvalue, attributeNamespace y.mark huri, bind_eq_ok_iff]
  refine ⟨uri?, rfl, ?_⟩
  split_ifs at h ⊢
  exact h

theorem foldlM_addAttribute {scope : Scope} {xs ys : List Assignment}
    {before after : List Attribute}
    (h : List.Forall₂ (fun x y : Assignment => y.name = x.name ∧ y.value = x.value) xs ys)
    (hxs : xs.foldlM (Xml.addAttribute scope) before = .ok after) :
    ys.foldlM (Xml.addAttribute scope) before = .ok after := by
  induction h generalizing before with
  | nil => exact hxs
  | cons hxy _ ih =>
    rw [List.foldlM_cons] at hxs ⊢
    obtain ⟨middle, hx, hrest⟩ := bind_eq_ok_iff.mp hxs
    exact bind_eq_ok_iff.mpr ⟨middle, addAttribute hxy.1 hxy.2 hx, ih hrest⟩

theorem resolve (h : a.Alike b) {outer : Scope} {r : Resolved} (hr : a.resolve outer = .ok r) :
    b.resolve outer = .ok r := by
  unfold StartTag.resolve at hr ⊢
  obtain ⟨attributes, hattributes, hr⟩ := bind_eq_ok_iff.mp hr
  obtain ⟨uri?, huri, hr⟩ := bind_eq_ok_iff.mp hr
  rw [h.declarations, h.name]
  exact bind_eq_ok_iff.mpr ⟨attributes, foldlM_addAttribute h.attributes hattributes,
    bind_eq_ok_iff.mpr ⟨uri?, elementNamespace b.mark huri, hr⟩⟩

end StartTag.Alike

/-! ### Children -/

section

variable (keep : Attribute → Bool) (told : String → Bool)

/-- The elements among the children, without the texts that are not told. -/
def gist (children : List (Child Node)) : List Element :=
  (Element.ofChildren keep children).map (Element.bare told)

@[simp] theorem gist_element (e : Node) (children : List (Child Node)) :
    gist keep told (.element e :: children) =
      (Element.ofNode keep e).bare told :: gist keep told children := by
  rw [gist, Element.ofChildren, List.map_cons, gist]

@[simp] theorem gist_text (content : String) (children : List (Child Node)) :
    gist keep told (.text content :: children) = gist keep told children := by
  rw [gist, Element.ofChildren, gist]

@[simp] theorem gist_comment (content : String) (children : List (Child Node)) :
    gist keep told (.comment content :: children) = gist keep told children := by
  rw [gist, Element.ofChildren, gist]

@[simp] theorem gist_instruction (target content : String) (children : List (Child Node)) :
    gist keep told (.instruction target content :: children) = gist keep told children := by
  rw [gist, Element.ofChildren, gist]

@[simp] theorem gist_addText (content : String) (children : List (Child Node)) :
    gist keep told (addText content children) = gist keep told children := by
  unfold addText
  split <;> simp

theorem gist_reverse (children : List (Child Node)) :
    gist keep told children.reverse = (gist keep told children).reverse := by
  have hreverse : Element.ofChildren keep children.reverse =
      (Element.ofChildren keep children).reverse := by
    induction children with
    | nil => rfl
    | cons c children ih =>
      rw [List.reverse_cons, Element.ofChildren_append, ih]
      cases c <;> simp [Element.ofChildren]
  rw [gist, hreverse, List.map_reverse, gist]

end

/-- Whether a text that comes next belongs to the leading text. The last child comes first. -/
def takesText : List (Child Node) → Bool
  | [] => true
  | [.text _] => true
  | _ => false

def IsText : Child Node → Prop
  | .text _ => True
  | _ => False

theorem leadingText?_reverse_cons {c : Child Node} {children : List (Child Node)}
    (h : IsText c → children ≠ []) :
    leadingText? (c :: children).reverse = leadingText? children.reverse := by
  rw [List.reverse_cons]
  cases hchildren : children.reverse with
  | nil =>
    have hc : ¬ IsText c := fun hc => h hc (List.reverse_eq_nil_iff.mp hchildren)
    cases c <;> first | rfl | exact absurd trivial hc
  | cons d more => cases d <;> rfl

theorem takesText_cons {c : Child Node} (hc : ¬ IsText c) (children : List (Child Node)) :
    takesText (c :: children) = false := by
  cases c <;> first | rfl | exact absurd trivial hc

/-- Leading texts that are still added to are all that stands before. -/
theorem eq_of_takesText {a b : List (Child Node)} (ha : takesText a) (hb : takesText b)
    (h : leadingText? a.reverse = leadingText? b.reverse) : a = b := by
  unfold takesText at ha hb
  split at ha <;> split at hb <;> simp_all [leadingText?]

theorem takesText_addText (content : String) (children : List (Child Node)) :
    takesText (addText content children) = takesText children := by
  unfold addText
  split
  next text rest => cases rest <;> rfl
  next hno =>
    cases children with
    | nil => rfl
    | cons c rest =>
      have hc : ¬ IsText c := by
        cases c <;> first | exact id | exact absurd rfl (hno _ _)
      rw [takesText_cons hc]
      rfl

theorem leadingText?_reverse_addText {children : List (Child Node)} (h : takesText children = false)
    (content : String) :
    leadingText? (addText content children).reverse = leadingText? children.reverse := by
  unfold addText
  split
  next text rest =>
    have hrest : rest ≠ [] := by
      rintro rfl
      cases h
    rw [leadingText?_reverse_cons fun _ => hrest, leadingText?_reverse_cons fun _ => hrest]
  next hno =>
    refine leadingText?_reverse_cons fun _ => ?_
    rintro rfl
    cases h

/-! ### Trees that are being built -/

variable {keep : Attribute → Bool} {told : String → Bool}

/-- Open elements that have the same name and the same start tag, and the same elements among their
children. If the text is told, what is the leading text up to now is the same. -/
structure OpenElement.Alike (keep : Attribute → Bool) (told : String → Bool) (e e' : OpenElement) :
    Prop where
  name : e'.name = e.name
  content : e'.content = e.content
  elements : gist keep told e'.children = gist keep told e.children
  leading : told e.name.localName →
    leadingText? e'.children.reverse = leadingText? e.children.reverse

theorem OpenElement.Alike.close {e e' : OpenElement} (h : e.Alike keep told e') :
    (Element.ofNode keep e'.close).bare told = (Element.ofNode keep e.close).bare told := by
  have hchildren : gist keep told e'.children.reverse = gist keep told e.children.reverse := by
    rw [gist_reverse, gist_reverse, h.elements]
  have hleading : (if told e.name.localName then leadingText? e'.children.reverse else none) =
      if told e.name.localName then leadingText? e.children.reverse else none := by
    split_ifs with htold
    · exact h.leading htold
    · rfl
  rw [gist, gist] at hchildren
  simp only [OpenElement.close, Element.ofNode, Element.bare, Element.bareAll_eq_map, h.name,
    h.content, hchildren, hleading]

structure Builder.Alike (keep : Attribute → Bool) (told : String → Bool) (b b' : Builder) :
    Prop where
  tag : Option.Rel StartTag.Alike b.tag? b'.tag?
  path : List.Forall₂ (OpenElement.Alike keep told) b.path b'.path
  outside : gist keep told b'.outside = gist keep told b.outside

/-- A text that comes next adds to the leading text of both or of neither, if it is told. -/
def Builder.TakeAlike (told : String → Bool) (b b' : Builder) : Prop :=
  ∀ e ∈ b.path.head?, ∀ e' ∈ b'.path.head?, told e.name.localName →
    takesText e'.children = takesText e.children

namespace Builder

variable {b b' : Builder} {f g : List (Child Node) → List (Child Node)}

theorem Alike.onChildren (h : b.Alike keep told b')
    (hgist : ∀ cs cs', gist keep told cs' = gist keep told cs →
        gist keep told (g cs') = gist keep told (f cs))
    (hleading : ∀ e ∈ b.path.head?, ∀ e' ∈ b'.path.head?, e.Alike keep told e' →
        told e.name.localName → leadingText? (g e'.children).reverse =
        leadingText? (f e.children).reverse) :
    (b.onChildren f).Alike keep told (b'.onChildren g) := by
  obtain ⟨tag?, path, outside⟩ := b
  obtain ⟨tag?', path', outside'⟩ := b'
  obtain ⟨htag, hpath, houtside⟩ := h
  cases hpath with
  | nil => exact ⟨htag, .nil, hgist _ _ houtside⟩
  | cons he hmore =>
    refine ⟨htag, .cons ⟨he.name, he.content, hgist _ _ he.elements, ?_⟩ hmore, houtside⟩
    exact hleading _ rfl _ rfl he

theorem TakeAlike.onChildren (h : ∀ e ∈ b.path.head?, ∀ e' ∈ b'.path.head?, told e.name.localName →
      takesText (g e'.children) = takesText (f e.children)) :
    TakeAlike told (b.onChildren f) (b'.onChildren g) := by
  obtain ⟨tag?, _ | ⟨e, path⟩, outside⟩ := b
  · intro e he
    cases he
  · obtain ⟨tag?', _ | ⟨e', path'⟩, outside'⟩ := b'
    · intro _ _ e' he'
      cases he'
    · rintro _ ⟨⟩ _ ⟨⟩
      exact h e rfl e' rfl

theorem Alike.scope_eq (h : b.Alike keep told b') : b'.scope = b.scope := by
  obtain ⟨tag?, path, outside⟩ := b
  obtain ⟨tag?', path', outside'⟩ := b'
  obtain ⟨-, hpath, -⟩ := h
  cases hpath with
  | nil => rfl
  | cons he _ => exact congrArg Resolved.scope he.content

theorem Alike.addChild (h : b.Alike keep told b') (child child' : Child Node)
    (hchild : ¬ IsText child) (hchild' : ¬ IsText child')
    (hgist : gist keep told [child'] = gist keep told [child]) :
    (b.onChildren (child :: ·)).Alike keep told (b'.onChildren (child' :: ·)) ∧
      TakeAlike told (b.onChildren (child :: ·)) (b'.onChildren (child' :: ·)) := by
  constructor
  · refine h.onChildren (fun cs cs' hcs => ?_) fun e _ e' _ he htold => ?_
    · have hsplit (child : Child Node) (cs : List (Child Node)) :
          gist keep told (child :: cs) = gist keep told [child] ++ gist keep told cs := by
        cases child <;> simp <;> rfl
      rw [hsplit child, hsplit child', hgist, hcs]
    · rw [leadingText?_reverse_cons (absurd · hchild), leadingText?_reverse_cons (absurd · hchild'),
        he.leading htold]
  · refine TakeAlike.onChildren fun e _ e' _ _ => ?_
    rw [takesText_cons hchild, takesText_cons hchild']

theorem Alike.addText (h : b.Alike keep told b') (htake : TakeAlike told b b') (content : String) :
    (b.onChildren (addText content)).Alike keep told (b'.onChildren (addText content)) ∧
      TakeAlike told (b.onChildren (addText content)) (b'.onChildren (addText content)) := by
  constructor
  · refine h.onChildren (fun cs cs' hcs => by simpa using hcs) fun e he e' he' halike htold => ?_
    have htakes := htake e he e' he' htold
    cases hopen : takesText e.children with
    | true =>
      rw [hopen] at htakes
      rw [eq_of_takesText htakes hopen (halike.leading htold)]
    | false =>
      rw [hopen] at htakes
      rw [leadingText?_reverse_addText htakes, leadingText?_reverse_addText hopen,
        halike.leading htold]
  · refine TakeAlike.onChildren fun e he e' he' htold => ?_
    rw [takesText_addText, takesText_addText, htake e he e' he' htold]

theorem Alike.endStartTag (h : b.Alike keep told b') {tag tag' : StartTag} (htag : tag.Alike tag')
    {isEmpty : Bool} {c : Builder} (hc : b.endStartTag isEmpty tag = .ok c) :
    ∃ c', b'.endStartTag isEmpty tag' = .ok c' ∧ c.Alike keep told c' ∧ TakeAlike told c c' := by
  unfold Builder.endStartTag at hc ⊢
  obtain ⟨content, hcontent, hc⟩ := bind_eq_ok_iff.mp hc
  have hcontent' := htag.resolve hcontent
  rw [← h.scope_eq] at hcontent'
  have hopened : OpenElement.Alike keep told ⟨tag.name, content, []⟩ ⟨tag'.name, content, []⟩ :=
    ⟨htag.name, rfl, rfl, fun _ => rfl⟩
  cases isEmpty with
  | true =>
    cases hc
    have houter : Builder.Alike keep told { b with tag? := none } { b' with tag? := none } :=
      ⟨.none, h.path, h.outside⟩
    exact ⟨_, bind_eq_ok_iff.mpr ⟨content, hcontent', rfl⟩,
      houter.addChild (.element _) (.element _) id id (by simpa using hopened.close)⟩
  | false =>
    cases hc
    refine ⟨_, bind_eq_ok_iff.mpr ⟨content, hcontent', rfl⟩,
      ⟨.none, .cons hopened h.path, h.outside⟩, ?_⟩
    rintro _ ⟨⟩ _ ⟨⟩ _
    rfl

theorem Alike.push (h : b.Alike keep told b') {token token' : Token} (htoken : token.Alike token')
    (htake : ∀ content, token = .text content → TakeAlike told b b') {c : Builder}
    (hc : b.push token = .ok c) :
    ∃ c', b'.push token' = .ok c' ∧ c.Alike keep told c' ∧
      (token.leavesInTag = false → (token.isInTag → b.tag?.isSome) → TakeAlike told c c') := by
  cases htoken with
  | startTag name mark mark' =>
    obtain ⟨tag, htag, hc⟩ := bind_eq_ok_iff.mp hc
    cases hc
    obtain ⟨tag', htag', halike⟩ := StartTag.Alike.begin mark' htag
    exact ⟨_, bind_eq_ok_iff.mpr ⟨tag', htag', rfl⟩, ⟨.some halike, h.path, h.outside⟩, nofun⟩
  | assignment name value mark mark' =>
    obtain ⟨tag?, path, outside⟩ := b
    obtain ⟨tag?', path', outside'⟩ := b'
    cases h.tag with
    | none =>
      cases hc
      exact ⟨_, rfl, h, nofun⟩
    | some hab =>
      obtain ⟨tag, htag, hc⟩ := bind_eq_ok_iff.mp hc
      cases hc
      obtain ⟨tag', htag', halike⟩ := hab.assign mark' htag
      exact ⟨_, bind_eq_ok_iff.mpr ⟨tag', htag', rfl⟩, ⟨.some halike, h.path, h.outside⟩, nofun⟩
  | startTagEnd isEmpty =>
    obtain ⟨tag?, path, outside⟩ := b
    obtain ⟨tag?', path', outside'⟩ := b'
    cases h.tag with
    | none =>
      cases hc
      exact ⟨_, rfl, h, fun _ hopen => absurd (hopen rfl) Bool.false_ne_true⟩
    | some hab =>
      obtain ⟨c', hc', halike, htakes⟩ := h.endStartTag hab hc
      exact ⟨c', hc', halike, fun _ _ => htakes⟩
  | endTag name mark mark' =>
    obtain ⟨tag?, path, outside⟩ := b
    obtain ⟨tag?', path', outside'⟩ := b'
    obtain ⟨htag, hpath, houtside⟩ := h
    cases hpath with
    | nil =>
      cases hc
      refine ⟨_, rfl, ⟨htag, .nil, houtside⟩, fun _ _ e he => ?_⟩
      cases he
    | @cons e e' path path' he hmore =>
      simp only [Builder.push] at hc ⊢
      rw [he.name]
      split_ifs at hc ⊢
      cases hc
      have houter : Builder.Alike keep told ⟨tag?, path, outside⟩ ⟨tag?', path', outside'⟩ :=
        ⟨htag, hmore, houtside⟩
      obtain ⟨halike, htakes⟩ := houter.addChild (.element e.close) (.element e'.close) id id (by
        simpa using he.close)
      exact ⟨_, rfl, halike, fun _ _ => htakes⟩
  | text content =>
    cases hc
    obtain ⟨halike, htakes⟩ := h.addText (htake content rfl) content
    exact ⟨_, rfl, halike, fun _ _ => htakes⟩
  | comment content =>
    cases hc
    obtain ⟨halike, htakes⟩ := h.addChild (.comment content) (.comment content) id id rfl
    exact ⟨_, rfl, halike, fun _ _ => htakes⟩
  | instruction target content =>
    cases hc
    obtain ⟨halike, htakes⟩ :=
      h.addChild (.instruction target content) (.instruction target content) id id rfl
    exact ⟨_, rfl, halike, fun _ _ => htakes⟩

theorem isSome_tag?_of_push {token : Token} {c : Builder} (hc : b.push token = .ok c)
    (hleaves : token.leavesInTag) (hopen : token.isInTag → b.tag?.isSome) : c.tag?.isSome := by
  obtain ⟨tag?, path, outside⟩ := b
  cases token with
  | startTag name mark =>
    obtain ⟨tag, -, hc⟩ := bind_eq_ok_iff.mp hc
    cases hc
    rfl
  | assignment name value mark =>
    obtain ⟨tag, rfl⟩ := Option.isSome_iff_exists.mp (hopen rfl)
    obtain ⟨tag', -, hc⟩ := bind_eq_ok_iff.mp hc
    cases hc
    rfl
  | _ => cases hleaves

theorem finish_eq_ok_iff {root : Node} :
    b.finish = .ok root ↔ b.path = [] ∧ root? b.outside = some root := by
  obtain ⟨tag?, path, outside⟩ := b
  unfold finish
  cases path <;> cases root? outside <;> simp

theorem head?_gist (children : List (Child Node)) :
    (gist keep told children).head? = (root? children).map fun e =>
      (Element.ofNode keep e).bare told := by
  induction children with
  | nil => rfl
  | cons c children ih => cases c <;> simp [root?, ih]

end Builder

/-! ### Readers -/

theorem Token.Alike.refl (token : Token) : token.Alike token := by
  cases token <;> constructor

/-- Whether the next token is a text. -/
def Scan.ReadsText (mode : Mode) (s : List Char) : Prop :=
  ∃ content next rest, step mode s = .ok (some (.text content, next), rest)

/-- A reader in the same mode has built a tree alike, and if a text comes next for `r`, takes it
alike. -/
structure Follows (keep : Attribute → Bool) (told : String → Bool) (r : Reading) (b' : Builder) :
    Prop where
  alike : r.builder.Alike keep told b'
  tag : r.mode.isTag → r.builder.tag?.isSome
  take : r.builder.TakeAlike told b' ∨ r.mode.isTag ∨ ¬ Scan.ReadsText r.mode r.rest

namespace Follows

theorem start (rest : List Char) : Follows keep told (.start rest) .start :=
  ⟨⟨.none, .nil, rfl⟩, nofun, .inl nofun⟩

/-- What a token does to a tree it does to a tree alike. Whatever comes next is then taken alike
again. -/
theorem push {b b' c : Builder} {mode next : Mode} {s r : List Char} {token token' : Token}
    (h : Follows keep told ⟨b, mode, s⟩ b') (read : Scan.step mode s = .ok (some (token, next), r))
    (built : b.push token = .ok c) (htoken : token.Alike token') :
    ∃ c', b'.push token' = .ok c' ∧ ∀ rest, Follows keep told ⟨c, next, rest⟩ c' := by
  obtain ⟨hmode, hnext⟩ := Scan.place_of_step read
  have htake : ∀ content, token = .text content → b.TakeAlike told b' := by
    rintro content rfl
    rcases h.take with htake | htag | htext
    · exact htake
    · exact absurd (hmode.symm.trans htag) Bool.false_ne_true
    · exact absurd ⟨content, next, r, read⟩ htext
  have hopen : token.isInTag → b.tag?.isSome := fun hin => h.tag (hmode.trans hin)
  obtain ⟨c', hc', halike, htakes⟩ := h.alike.push htoken htake built
  refine ⟨c', hc', fun rest => ⟨halike, fun htag => ?_, ?_⟩⟩
  · exact Builder.isSome_tag?_of_push built (hnext.symm.trans htag) hopen
  · cases hleaves : token.leavesInTag with
    | true => exact .inr (.inl (hnext.trans hleaves))
    | false => exact .inl (htakes hleaves hopen)

theorem steps {r last : Reading} {b' : Builder} (h : Follows keep told r b')
    (hsteps : Reading.Steps r last) :
    ∃ c', Reading.Steps ⟨b', r.mode, r.rest⟩ ⟨c', last.mode, last.rest⟩ ∧
      Follows keep told last c' := by
  induction hsteps using Relation.ReflTransGen.head_induction_on generalizing b' with
  | refl => exact ⟨b', .refl, h⟩
  | head hstep _ ih =>
    cases hstep with
    | token read built =>
      obtain ⟨c', hc', hfollows⟩ := h.push read built (.refl _)
      obtain ⟨last', hsteps', hlast⟩ := ih (hfollows _)
      exact ⟨last', .head (.token read hc') hsteps', hlast⟩

theorem suffix_of_steps {r last : Reading} (h : Reading.Steps r last) : last.rest <:+ r.rest := by
  induction h using Relation.ReflTransGen.head_induction_on with
  | refl => exact List.suffix_rfl
  | head hstep _ ih =>
    cases hstep with
    | token read _ =>
      obtain ⟨front, rest, p, rfl, hopens, hp⟩ := Scan.step_eq_ok_iff.mp read
      exact ih.trans ((hopens.reads hp).trans (List.suffix_append front rest))

/-- One reads in a text that goes on in another way from some place on, and reads up to that
place. -/
theorem transfer {r last : Reading} {b' : Builder} (h : Follows keep told r b')
    (hsteps : Reading.Steps r last) {s u t : List Char} (hs : r.rest = s ++ t)
    (hu : last.rest = u ++ t) (w : List Char) :
    ∃ c', Reading.Steps ⟨b', r.mode, s ++ '<' :: w⟩ ⟨c', last.mode, u ++ '<' :: w⟩ ∧
      Follows keep told last c' := by
  induction hsteps using Relation.ReflTransGen.head_induction_on generalizing b' s with
  | refl =>
    obtain rfl := List.append_cancel_right (hs.symm.trans hu)
    exact ⟨b', .refl, h⟩
  | head hstep hmore ih =>
    cases hstep with
    | @token b c mode next _ rest token read built =>
      obtain ⟨front, hfront⟩ := suffix_of_steps hmore
      rw [hu, ← List.append_assoc] at hfront
      subst hs hfront
      obtain ⟨token', read', htoken⟩ := Scan.step_transfer (w := w) read
      obtain ⟨c', hc', hfollows⟩ := h.push read built htoken
      obtain ⟨last', hsteps', hlast⟩ := ih (hfollows _) rfl
      exact ⟨last', .head (.token read' hc') hsteps', hlast⟩

theorem ends {r : Reading} {b' : Builder} (h : Follows keep told r b') {root : Node}
    (hends : r.Ends root) :
    ∃ root', Reading.Ends ⟨b', r.mode, r.rest⟩ root' ∧
      (Element.ofNode keep root').bare told = (Element.ofNode keep root).bare told := by
  obtain ⟨hstop, hfinish⟩ := hends
  obtain ⟨hpath, hroot⟩ := Builder.finish_eq_ok_iff.mp hfinish
  have hpath' : b'.path = [] := List.forall₂_nil_left_iff.mp (hpath ▸ h.alike.path)
  have hheads := congrArg List.head? h.alike.outside
  rw [Builder.head?_gist, Builder.head?_gist, hroot, Option.map_some] at hheads
  obtain ⟨root', hroot', heq⟩ := Option.map_eq_some_iff.mp hheads
  exact ⟨root', ⟨hstop, Builder.finish_eq_ok_iff.mpr ⟨hpath', hroot'⟩⟩, heq⟩

end Follows

end Xml

end SchemaDoc
