import SchemaDoc.Proofs.Document.Following
import SchemaDoc.Proofs.Xml.Comments

/-!
# Documents with a comment put in

Where a comment may be put into a document is told by how far the document has been read: in the
content of an element, between two tokens or inside of a text (`CommentPlace`). The document with
the comment is then read to the same place with a tree alike, and from there on to its end
(`CommentPlace.readsThrough`). What a comment can change is the leading text of the element that it
stands in, which it may end; the text that goes on after it is then read as if it were cut out
(`ReadTo.exists_root_of_cut`).
-/
namespace SchemaDoc.Xml

variable {keep : Attribute → Bool} {told : String → Bool}

/-- The text that goes on at `s` ends at `rest`, CDATA sections included. -/
structure TextsTo (depth : Nat) (s rest : List Char) : Prop where
  steps : Relation.ReflTransGen
    (fun s r => ∃ content, Scan.step (.content (depth + 1)) s =
      .ok (some (.text content, .content (depth + 1)), r))
    s rest
  stop : ¬ Scan.ReadsText (.content (depth + 1)) rest

/-- A document is read to the place between `before` and `after`, in the content of an element under
`depth` others, with the tree `b`. -/
structure ReadTo (before after : List Char) (depth : Nat) (b : Builder) : Prop where
  steps : ∃ rest, Scan.preamble (before ++ after) = .ok ((), rest) ∧
    Reading.Steps (.start rest) ⟨b, .content (depth + 1), after⟩

/-- A comment may be put between `before` and `after`, which is in the content of the element `e`,
under `depth` others. The children of `e` are those before that place. -/
inductive CommentPlace : List Char → List Char → Nat → OpenElement → Prop
  | between {before after : List Char} {depth : Nat} {b : Builder} {e : OpenElement}
      {path : List OpenElement} (read : ReadTo before after depth b) (inner : b.path = e :: path) :
      CommentPlace before after depth e
  /-- Inside of a text that begins with `front`. No reference is cut. -/
  | within {before front after : List Char} {depth : Nat} {b : Builder} {e : OpenElement}
      {path : List OpenElement} {ps : List Piece} (read : ReadTo before (front ++ after) depth b)
      (inner : b.path = e :: path) (begun : front ≠ []) (noMark : '<' ∉ front)
      (whole : pieces front = .ok ps) :
      CommentPlace (before ++ front) after depth
        { e with children := addText (String.ofList (joinText ps)) e.children }

/-! ### How far a document has been read -/

def Mode.isContent : Mode → Bool
  | .content _ => true
  | _ => false

theorem Scan.exists_bracket_of_step {mode next : Mode} {s r : List Char} {token : Token}
    (h : step mode s = .ok (some (token, next), r)) :
    ∃ u, s = u ++ r ∧ (next.isContent → mode.isContent ∨ '>' ∈ u) := by
  obtain ⟨front, rest, p, rfl, hopens, hread⟩ := step_eq_ok_iff.mp h
  obtain ⟨v, hv⟩ := hopens.reads hread
  refine ⟨front ++ v, by rw [List.append_assoc, hv], fun hnext => ?_⟩
  cases hopens with
  | comment => exact .inl hnext
  | instruction => exact .inl hnext
  | startTag hentered =>
    have htag := (Mode.isTag_of_entered? hentered).2
    cases next with
    | tag => cases hnext
    | _ => cases htag
  | cdata => exact .inl rfl
  | endTag => exact .inl rfl
  | text => exact .inl rfl
  | emptyTagEnd =>
    obtain ⟨_, m, hchar, hpure⟩ := bind_eq_ok_iff.mp hread
    cases hpure
    rw [char_eq_ok_iff.mp hchar] at hv
    obtain rfl := List.append_cancel_right (hv.trans (List.append_cons [] '>' r))
    simp
  | startTagEnd => simp
  | assignment => cases hnext

theorem Reading.exists_bracket {rest : List Char} {r : Reading} (h : Steps (.start rest) r)
    (hcontent : r.mode.isContent) : ∃ u, rest = u ++ r.rest ∧ '>' ∈ u := by
  have general : ∃ u, rest = u ++ r.rest ∧ (r.mode.isContent → '>' ∈ u) := by
    clear hcontent
    induction h with
    | refl => exact ⟨[], rfl, nofun⟩
    | tail _ hstep ih =>
      cases hstep with
      | token read built =>
        obtain ⟨u, hu, hbracket⟩ := ih
        obtain ⟨v, rfl, hstep⟩ := Scan.exists_bracket_of_step read
        refine ⟨u ++ v, by simp [hu], fun hnext => ?_⟩
        rcases hstep hnext with hmode | hv
        · exact List.mem_append_left v (hbracket hmode)
        · exact List.mem_append_right u hv
  obtain ⟨u, hu, hbracket⟩ := general
  exact ⟨u, hu, hbracket hcontent⟩

/-- Inside of an element a document does not end, and so a token comes next. -/
theorem Reading.exists_step_of_ends {r last : Reading} {root : Node} (h : Steps r last)
    (hends : last.Ends root) (hpath : r.builder.path ≠ []) :
    ∃ next, Step r next ∧ Steps next last := by
  rcases h.cases_head with rfl | hstep
  · exact absurd (Builder.finish_eq_ok_iff.mp hends.finish).1 hpath
  · exact hstep

theorem Reading.steps_of_ends {r middle last : Reading} {root : Node} (h : Steps r middle)
    (hlast : Steps r last) (hends : last.Ends root) : Steps middle last := by
  have unique : Relator.RightUnique Step := by
    intro r a b ha hb
    cases ha with
    | token read built =>
      cases hb with
      | token read' built' =>
        rw [read] at read'
        cases read'
        rw [built] at built'
        cases built'
        rfl
  rcases Relation.ReflTransGen.total_of_right_unique unique h hlast with hsteps | hsteps
  · exact hsteps
  · rcases hsteps.cases_head with rfl | ⟨next, hstep, -⟩
    · exact .refl
    · obtain ⟨_, hstop⟩ := hends.stop
      cases hstep with
      | token read built =>
        rw [read] at hstop
        cases hstop

/-! ### What only one tree takes in -/

namespace Builder

variable {b b' : Builder} {f g : List (Child Node) → List (Child Node)}

/-- The leading text of the innermost open element has ended, if it is told. -/
def IsSettled (told : String → Bool) (b : Builder) : Prop :=
  ∀ e ∈ b.path.head?, told e.name.localName → takesText e.children = false

/-- Children are changed, but no element among them, and no leading text that is told. -/
structure Spares (keep : Attribute → Bool) (told : String → Bool) (b : Builder)
    (f : List (Child Node) → List (Child Node)) : Prop where
  elements : ∀ cs, gist keep told (f cs) = gist keep told cs
  leading : ∀ e ∈ b.path.head?, told e.name.localName →
    leadingText? (f e.children).reverse = leadingText? e.children.reverse

theorem spares_id (b : Builder) : Spares keep told b id :=
  ⟨fun _ => rfl, fun _ _ _ => rfl⟩

theorem spares_comment (b : Builder) (content : String) :
    Spares keep told b (.comment content :: ·) :=
  ⟨gist_comment keep told content, fun _ _ _ => leadingText?_reverse_cons nofun⟩

theorem IsSettled.spares_text (h : b.IsSettled told) (content : String) :
    Spares keep told b (addText content) :=
  ⟨gist_addText keep told content, fun e he htold =>
    leadingText?_reverse_addText (h e he htold) content⟩

theorem Alike.spared (h : b.Alike keep told b') (hf : Spares keep told b f)
    (hg : Spares keep told b' g) : (b.onChildren f).Alike keep told (b'.onChildren g) := by
  refine h.onChildren (fun cs cs' hcs => ?_) fun e he e' he' halike htold => ?_
  · rw [hf.elements, hg.elements, hcs]
  · rw [hf.leading e he htold, hg.leading e' he' (halike.name.symm ▸ htold), halike.leading htold]

theorem Alike.spared_left (h : b.Alike keep told b') (hf : Spares keep told b f) :
    (b.onChildren f).Alike keep told b' := by
  have halike := h.spared hf (spares_id b')
  rwa [b'.onChildren_id] at halike

theorem Alike.spared_right (h : b.Alike keep told b') (hg : Spares keep told b' g) :
    b.Alike keep told (b'.onChildren g) := by
  have halike := h.spared (spares_id b) hg
  rwa [b.onChildren_id] at halike

theorem IsSettled.onChildren
    (h : ∀ e ∈ b.path.head?, told e.name.localName → takesText (f e.children) = false) :
    (b.onChildren f).IsSettled told := by
  obtain ⟨tag?, _ | ⟨e, path⟩, outside⟩ := b
  · intro e he
    cases he
  · rintro _ ⟨⟩
    exact h e rfl

theorem isSettled_comment (b : Builder) (content : String) :
    (b.onChildren (.comment content :: ·)).IsSettled told :=
  .onChildren fun _ _ _ => takesText_cons (by exact id) _

theorem IsSettled.addText (h : b.IsSettled told) (content : String) :
    (b.onChildren (addText content)).IsSettled told :=
  .onChildren fun e he htold => (takesText_addText content e.children).trans (h e he htold)

theorem Alike.exists_head (h : b.Alike keep told b') {e' : OpenElement} (he' : e' ∈ b'.path.head?) :
    ∃ e ∈ b.path.head?, e.Alike keep told e' := by
  obtain ⟨tag?, path, outside⟩ := b
  obtain ⟨tag?', path', outside'⟩ := b'
  obtain ⟨-, hpath, -⟩ := h
  cases hpath with
  | nil => cases he'
  | cons he _ =>
    cases he'
    exact ⟨_, rfl, he⟩

theorem Alike.takeAlike (h : b.Alike keep told b') (hb : b.IsSettled told)
    (hb' : b'.IsSettled told) : TakeAlike told b b' := by
  intro e he e' he' htold
  obtain ⟨e₁, he₁, halike⟩ := h.exists_head he'
  obtain rfl := Option.mem_unique he he₁
  rw [hb e he htold, hb' e' he' (halike.name ▸ htold)]

theorem Alike.isSettled (h : b.Alike keep told b') (htake : TakeAlike told b b')
    (hb : b.IsSettled told) : b'.IsSettled told := by
  intro e' he' htold
  obtain ⟨e, he, halike⟩ := h.exists_head he'
  rw [halike.name] at htold
  rw [htake e he e' he' htold, hb e he htold]

/-- A text that adds to no leading text may as well be two texts with a comment in between. -/
theorem Alike.interrupted (h : b.Alike keep told b') (hb : b.IsSettled told)
    (hb' : b'.IsSettled told) (content first comment second : String) :
    (b.onChildren (Xml.addText content)).Alike keep told
        (((b'.onChildren (Xml.addText first)).onChildren (.comment comment :: ·)).onChildren
          (Xml.addText second)) ∧
      (b.onChildren (Xml.addText content)).TakeAlike told
        (((b'.onChildren (Xml.addText first)).onChildren (.comment comment :: ·)).onChildren
          (Xml.addText second)) := by
  have hcomment :
      ((b'.onChildren (Xml.addText first)).onChildren (.comment comment :: ·)).IsSettled told :=
    isSettled_comment _ comment
  have hfirst := (h.spared_left (hb.spares_text content)).spared_right (hb'.spares_text first)
  have hsecond :=
    (hfirst.spared_right (spares_comment _ comment)).spared_right (hcomment.spares_text second)
  exact ⟨hsecond, hsecond.takeAlike (hb.addText content) (hcomment.addText second)⟩

theorem Alike.path_ne_nil (h : b.Alike keep told b') (hb : b.path ≠ []) : b'.path ≠ [] := by
  intro hnil
  have hpath := h.path
  rw [hnil, List.forall₂_nil_right_iff] at hpath
  exact hb hpath

end Builder

/-- A comment changes nothing but what becomes of a text that comes right after it. -/
theorem Follows.comment {b b' : Builder} {mode : Mode} {s : List Char}
    (h : Follows keep told ⟨b, mode, s⟩ b') (settled : b.IsSettled told ∨ ¬ Scan.ReadsText mode s)
    (content : String) :
    Follows keep told ⟨b, mode, s⟩ (b'.onChildren (.comment content :: ·)) := by
  have halike := h.alike.spared_right (Builder.spares_comment b' content)
  refine ⟨halike, h.tag, ?_⟩
  rcases settled with hsettled | htext
  · exact .inl (halike.takeAlike hsettled (Builder.isSettled_comment b' content))
  · exact .inr (.inr htext)

/-! ### The document with the comment -/

namespace ReadTo

variable {before after front : List Char} {depth : Nat} {b b' : Builder} {root : Node}
    {last : Reading}

/-- A document is read to the same place in another that goes on in another way from some place
on. -/
theorem transfer (h : ReadTo before (front ++ after) depth b) (w : List Char) :
    ∃ b', ReadTo before (front ++ '<' :: w) depth b' ∧
      Follows keep told ⟨b, .content (depth + 1), front ++ after⟩ b' := by
  obtain ⟨rest, hpreamble, hsteps⟩ := h.steps
  obtain ⟨u, hu, hbracket⟩ := Reading.exists_bracket hsteps rfl
  dsimp only at hu
  subst hu
  rw [← List.append_assoc, ← List.append_assoc] at hpreamble
  have hpreamble' := Scan.preamble_transfer (w := w) hpreamble (List.mem_append_left front hbracket)
  rw [List.append_assoc, List.append_assoc] at hpreamble'
  obtain ⟨b', hsteps', hfollows⟩ := (Follows.start (u ++ (front ++ after))).transfer hsteps
    (List.append_assoc u front after).symm rfl w
  rw [List.append_assoc] at hsteps'
  exact ⟨b', ⟨_, hpreamble', hsteps'⟩, hfollows⟩

theorem exists_last (h : ReadTo before after depth b)
    (hroot : Node.parse (String.ofList (before ++ after)) = .ok root) :
    ∃ last, Reading.Steps ⟨b, .content (depth + 1), after⟩ last ∧ last.Ends root := by
  obtain ⟨rest, hpreamble, hsteps⟩ := h.steps
  obtain ⟨rest', last, hpreamble', hlast, hends⟩ := Node.parse_eq_ok_iff.mp hroot
  rw [String.toList_ofList, hpreamble] at hpreamble'
  cases hpreamble'
  exact ⟨last, Reading.steps_of_ends hsteps hlast hends, hends⟩

theorem step (h : ReadTo before (front ++ after) depth b)
    (hstep : Reading.Step ⟨b, .content (depth + 1), front ++ after⟩
        ⟨b', .content (depth + 1), after⟩) :
    ReadTo (before ++ front) after depth b' := by
  obtain ⟨rest, hpreamble, hsteps⟩ := h.steps
  rw [← List.append_assoc] at hpreamble
  exact ⟨rest, hpreamble, hsteps.tail hstep⟩

theorem exists_root {c c' : Builder} {mode : Mode} {r : List Char}
    (h : ReadTo before after depth b')
    (hsteps : Reading.Steps ⟨b', .content (depth + 1), after⟩ ⟨c', mode, r⟩)
    (hfollows : Follows keep told ⟨c, mode, r⟩ c') (hlast : Reading.Steps ⟨c, mode, r⟩ last)
    (hends : last.Ends root) :
    ∃ root', Node.parse (String.ofList (before ++ after)) = .ok root' ∧
      (Element.ofNode keep root').bare told = (Element.ofNode keep root).bare told := by
  obtain ⟨rest, hpreamble, hstart⟩ := h.steps
  obtain ⟨d, hd, hend⟩ := hfollows.steps hlast
  obtain ⟨root', hends', heq⟩ := hend.ends hends
  refine ⟨root', ?_, heq⟩
  rw [Node.parse_eq_ok_iff, String.toList_ofList]
  exact ⟨rest, _, hpreamble, hstart.trans (hsteps.trans hd), hends'⟩

end ReadTo

theorem Builder.path_onChildren {b : Builder} {f : List (Child Node) → List (Child Node)}
    {e : OpenElement} {path : List OpenElement} (inner : b.path = e :: path) :
    (b.onChildren f).path = { e with children := f e.children } :: path := by
  simp [onChildren, inner]

theorem Builder.path_onChildren_ne_nil {b : Builder} {f : List (Child Node) → List (Child Node)}
    (h : b.path ≠ []) : (b.onChildren f).path ≠ [] := by
  obtain ⟨e, path, inner⟩ := List.exists_cons_of_ne_nil h
  simp [path_onChildren inner]

theorem Builder.isSettled_of_inner {b : Builder} {e : OpenElement} {path : List OpenElement}
    (inner : b.path = e :: path) (h : told e.name.localName → takesText e.children = false) :
    b.IsSettled told := by
  intro e₁ he₁
  obtain rfl : e = e₁ := by simpa [inner] using he₁
  exact h

variable {before after comment : List Char} {depth : Nat} {root : Node}

/-- A document is read into an element up to the place where `s` begins, and then to its end. Its
root is as `root`, but for texts that are not told. -/
def ReadsThrough (keep : Attribute → Bool) (told : String → Bool) (before s : List Char)
    (depth : Nat) (root : Node) : Prop :=
  ∃ b, ReadTo before s depth b ∧ b.path ≠ [] ∧
    ∃ root', Node.parse (String.ofList (before ++ s)) = .ok root' ∧
    (Element.ofNode keep root').bare told = (Element.ofNode keep root).bare told

section

variable {b b' : Builder} (hcomment : IsComment comment)
  (settled : b.IsSettled told ∨ ¬ Scan.ReadsText (.content (depth + 1)) after)
include hcomment settled

theorem ReadTo.readsThrough (read : ReadTo before after depth b) (hpath : b.path ≠ [])
    (read' : ReadTo before (writeComment comment ++ after) depth b')
    (hfollows : Follows keep told ⟨b, .content (depth + 1), after⟩ b')
    (hroot : Node.parse (String.ofList (before ++ after)) = .ok root) :
    ReadsThrough keep told before (writeComment comment ++ after) depth root := by
  obtain ⟨last, hlast, hends⟩ := read.exists_last hroot
  have hstep := Reading.Step.token (b := b') (Scan.step_comment hcomment depth after) rfl
  exact ⟨b', read', hfollows.alike.path_ne_nil hpath,
    read'.exists_root (.single hstep) (hfollows.comment settled _) hlast hends⟩

/-- Inside of a text the comment ends a text, and another one begins, unless the text has come to
its end. -/
theorem ReadTo.readsThrough_within {front : List Char} {ps : List Piece}
    (read : ReadTo before (front ++ after) depth b) (hpath : b.path ≠ []) (begun : front ≠ [])
    (noMark : '<' ∉ front) (whole : pieces front = .ok ps)
    (hroot : Node.parse (String.ofList (before ++ front ++ after)) = .ok root) :
    ReadsThrough keep told (before ++ front) (writeComment comment ++ after) depth root := by
  obtain ⟨w, hw⟩ : ∃ w, writeComment comment ++ after = '<' :: w := ⟨_, rfl⟩
  obtain ⟨b', read', hfollows⟩ : ∃ b', ReadTo before (front ++ '<' :: w) depth b' ∧
      Follows keep told ⟨b, .content (depth + 1), front ++ after⟩ b' := ReadTo.transfer read w
  obtain ⟨last, hlast, hends⟩ := read.exists_last (List.append_assoc before front after ▸ hroot)
  obtain ⟨middle, hstep, hlast⟩ := Reading.exists_step_of_ends hlast hends hpath
  cases hstep with
  | @token _ c _ next _ r token hread built =>
  obtain ⟨rfl, ⟨content, rfl⟩, hfirst, hmore⟩ := Scan.exists_texts_of_step begun noMark whole hread
  cases built
  have read'' := read'.step (.token (hfirst w) rfl)
  rw [← hw] at read''
  rcases hmore with ⟨rfl, htoken⟩ | ⟨content', hsecond⟩
  · -- The text ends where the comment stands, and has been read in both.
    cases htoken
    obtain ⟨_, ⟨⟩, hfollows'⟩ := hfollows.push hread rfl (.refl _)
    have settled' := settled.imp_left fun hb => hb.addText (String.ofList (joinText ps))
    exact (read.step (.token hread rfl)).readsThrough hcomment settled'
      (Builder.path_onChildren_ne_nil hpath) read'' (hfollows' _) hroot
  · -- The text goes on, and so it is told nowhere or no leading text.
    have hb : b.IsSettled told := settled.resolve_right (absurd ⟨content', _, _, hsecond⟩)
    have htake : b.TakeAlike told b' := by
      rcases hfollows.take with htake | htag | htext
      · exact htake
      · cases htag
      · exact absurd ⟨content, _, _, hread⟩ htext
    obtain ⟨halike, htakes⟩ :=
      hfollows.alike.interrupted hb (hfollows.alike.isSettled htake hb) content
        (String.ofList (joinText ps)) (String.ofList comment) content'
    have hend : Follows keep told ⟨b.onChildren (addText content), .content (depth + 1), r⟩ _ :=
      ⟨halike, nofun, .inl htakes⟩
    exact ⟨_, read'', Builder.path_onChildren_ne_nil (hfollows.alike.path_ne_nil hpath),
      read''.exists_root (.head (.token (Scan.step_comment hcomment depth after) rfl)
        (.single (.token hsecond rfl))) hend hlast hends⟩

end

variable (keep told) in
theorem CommentPlace.readsThrough {e : OpenElement} (place : CommentPlace before after depth e)
    (hcomment : IsComment comment) (hroot : Node.parse (String.ofList (before ++ after)) = .ok root)
    (settled : (told e.name.localName → takesText e.children = false) ∨
      ¬ Scan.ReadsText (.content (depth + 1)) after) :
    ReadsThrough keep told before (writeComment comment ++ after) depth root := by
  cases place with
  | between read inner =>
    obtain ⟨w, hw⟩ : ∃ w, writeComment comment ++ after = '<' :: w := ⟨_, rfl⟩
    have hread : ReadTo before ([] ++ after) depth _ := read
    obtain ⟨b', read', hfollows⟩ := hread.transfer w
    rw [List.nil_append, ← hw] at read'
    exact read.readsThrough hcomment (settled.imp_left (Builder.isSettled_of_inner inner))
      (by simp [inner]) read' hfollows hroot
  | within read inner begun noMark whole =>
    refine read.readsThrough_within hcomment (settled.imp_left fun hsettled => ?_)
      (by simp [inner]) begun noMark whole hroot
    exact Builder.isSettled_of_inner inner fun htold =>
      (takesText_addText _ _).symm.trans (hsettled htold)

theorem TextsTo.exists_steps {s rest : List Char} (h : TextsTo depth s rest) {b : Builder}
    (hb : b.IsSettled told) :
    ∃ b', Reading.Steps ⟨b, .content (depth + 1), s⟩ ⟨b', .content (depth + 1), rest⟩ ∧
      (b.path ≠ [] → b'.path ≠ []) ∧ ∀ c, b.Alike keep told c → b'.Alike keep told c := by
  have hsteps := h.steps
  clear h
  induction hsteps using Relation.ReflTransGen.head_induction_on generalizing b with
  | refl => exact ⟨b, .refl, id, fun _ => id⟩
  | head hstep _ ih =>
    obtain ⟨content, hread⟩ := hstep
    obtain ⟨b', hsteps, hpath, halike⟩ := ih (hb.addText content)
    exact ⟨b', .head (.token hread rfl) hsteps, fun h => hpath (Builder.path_onChildren_ne_nil h),
      fun c hc => halike c (hc.spared_left (hb.spares_text content))⟩

theorem Scan.next_of_text {mode next : Mode} {s r : List Char} {content : String}
    (h : step mode s = .ok (some (.text content, next), r)) : next = mode := by
  obtain ⟨hmode, hnext⟩ := place_of_step h
  obtain ⟨front, rest, p, -, hopens, hread⟩ := step_eq_ok_iff.mp h
  cases hopens with
  | comment => rfl
  | instruction => rfl
  | cdata => rfl
  | text => rfl
  | startTag hentered => exact absurd ((Mode.isTag_of_entered? hentered).2.symm.trans hnext) nofun
  | endTag =>
    have hp (start : Mark) :
        Yields (fun token => ∀ content, token ≠ .text content) (endTag start) :=
      yields_bind fun _ => yields_bind fun _ => yields_bind fun _ => yields_pure nofun
    exact absurd rfl (hp _ _ _ _ hread content)
  | emptyTagEnd => cases hmode
  | startTagEnd => cases hmode
  | assignment => cases hmode

/-- Where the texts end that come next. The induction is on the length, as each of them takes
something. -/
theorem exists_textsTo (depth : Nat) (s : List Char) : ∃ rest, TextsTo depth s rest := by
  induction hn : s.length using Nat.strongRecOn generalizing s with
  | ind n ih =>
    by_cases htext : Scan.ReadsText (.content (depth + 1)) s
    · obtain ⟨content, next, r, hread⟩ := htext
      obtain rfl := Scan.next_of_text hread
      obtain ⟨rest, hsteps, hstop⟩ := ih r.length (hn ▸ Scan.length_lt_of_step hread) r rfl
      exact ⟨rest, .head ⟨content, hread⟩ hsteps, hstop⟩
    · exact ⟨s, .refl, htext⟩

theorem Scan.exists_cons_of_not_readsText {next : Mode} {s r : List Char} {token : Token}
    (h : step (.content (depth + 1)) s = .ok (some (token, next), r))
    (htext : ¬ ReadsText (.content (depth + 1)) s) : ∃ w, s = '<' :: w := by
  cases s with
  | nil => cases h
  | cons c s =>
    by_cases hc : c = '<'
    · exact ⟨s, by rw [hc]⟩
    · obtain ⟨hread, rfl⟩ := (step_text_eq_ok_iff hc).mp h
      obtain ⟨raw, ps, -, -, -, rfl⟩ := text_eq_ok_iff.mp hread
      exact absurd ⟨_, _, r, h⟩ htext

variable (keep told) in
/-- Of the texts around a comment the second may as well be cut out, as it is no leading text. -/
theorem ReadTo.exists_root_of_cut {b : Builder} {rest : List Char} (hcomment : IsComment comment)
    (read : ReadTo before (writeComment comment ++ after) depth b) (hpath : b.path ≠ [])
    (texts : TextsTo depth after rest)
    (hroot : Node.parse (String.ofList (before ++ (writeComment comment ++ after))) = .ok root) :
    ∃ root', Node.parse (String.ofList (before ++ rest)) = .ok root' ∧
      (Element.ofNode keep root').bare told = (Element.ofNode keep root).bare told := by
  obtain ⟨last, hlast, hends⟩ := read.exists_last hroot
  have hstep : Reading.Step ⟨b, .content (depth + 1), writeComment comment ++ after⟩
      ⟨b.onChildren (.comment (String.ofList comment) :: ·), .content (depth + 1), after⟩ :=
    .token (Scan.step_comment hcomment depth after) rfl
  have hsettled : (b.onChildren (.comment (String.ofList comment) :: ·)).IsSettled told :=
    b.isSettled_comment _
  obtain ⟨b', hsteps, hpath', halike⟩ : ∃ b', _ ∧ _ ∧ ∀ c, _ → Builder.Alike keep told b' c :=
    texts.exists_steps hsettled
  have hlast' := Reading.steps_of_ends (.head hstep hsteps) hlast hends
  obtain ⟨middle, hmiddle, -⟩ := Reading.exists_step_of_ends hlast' hends
    (hpath' (Builder.path_onChildren_ne_nil hpath))
  obtain ⟨w, rfl⟩ : ∃ w, rest = '<' :: w := by
    cases hmiddle with
    | token hread _ => exact Scan.exists_cons_of_not_readsText hread texts.stop
  have hread : ReadTo before ([] ++ (writeComment comment ++ after)) depth b := read
  obtain ⟨c, read', hfollows⟩ : ∃ c, _ ∧ Follows keep told _ c := hread.transfer w
  have hend : Follows keep told ⟨b', .content (depth + 1), '<' :: w⟩ c :=
    ⟨halike c (hfollows.alike.spared_left (Builder.spares_comment b _)), nofun,
      .inr (.inr texts.stop)⟩
  exact read'.exists_root .refl hend hlast' hends

end SchemaDoc.Xml
