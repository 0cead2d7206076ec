import SchemaDoc.Xml.Token

/-!
# How tokens begin

What comes next in a document is told by a mark in front of it: by `<!--` a comment, by `</` an end
tag, by a blank inside of a tag an attribute. `Scan.Opens` lists the marks, and what reads on after
each of them. A step reads a token exactly if the text begins with a mark and the rest is read by
what belongs to it (`Scan.step_eq_ok_iff`), so that nothing else needs to be known of how a step
decides.
-/
namespace SchemaDoc.Xml

open Text (eq_append_of_strip?)

namespace Mode

/-- Inside of elements no blank is passed over. -/
def IsGap (mode : Mode) (blanks : List Char) : Prop :=
  (∀ c ∈ blanks, isSpace c) ∧ ∀ depth, mode = .content (depth + 1) → blanks = []

theorem IsGap.nil (mode : Mode) : mode.IsGap [] :=
  ⟨by simp, fun _ _ => rfl⟩

def isTag : Mode → Bool
  | .tag _ => true
  | _ => false

/-- The mode after the opening bracket of a start tag, where one may stand. -/
def entered? : Mode → Option Mode
  | .outset => some (.tag 0)
  | .content (depth + 1) => some (.tag (depth + 1))
  | _ => none

theorem isTag_of_entered? {mode next : Mode} (h : mode.entered? = some next) :
    mode.isTag = false ∧ next.isTag = true := by
  unfold entered? at h
  split at h <;> cases h <;> exact ⟨rfl, rfl⟩

end Mode

namespace Token

/-- Whether a token stands inside of a start tag. -/
def isInTag : Token → Bool
  | .assignment _ _ _ | .startTagEnd _ => true
  | _ => false

/-- Whether what follows a token stands inside of a start tag. -/
def leavesInTag : Token → Bool
  | .startTag _ _ | .assignment _ _ _ => true
  | _ => false

end Token

namespace Scan

/-- `Opens mode front rest p next`: in `mode` the mark `front` before `rest` opens a token that `p`
reads from `rest`, and reading goes on in the mode `next`. -/
inductive Opens : Mode → List Char → List Char → Scan Token → Mode → Prop
  | comment {mode : Mode} {blanks : List Char} (hmode : mode.isTag = false)
      (gap : mode.IsGap blanks) (rest : List Char) :
      Opens mode (blanks ++ "<!--".toList) rest (comment ("<!--".toList ++ rest)) mode
  | instruction {mode : Mode} {blanks : List Char} (hmode : mode.isTag = false)
      (gap : mode.IsGap blanks) (rest : List Char) :
      Opens mode (blanks ++ "<?".toList) rest (instruction ("<?".toList ++ rest)) mode
  | startTag {mode next : Mode} {blanks : List Char} (hnext : mode.entered? = some next)
      (gap : mode.IsGap blanks) {c : Char} (hc : c ≠ '!' ∧ c ≠ '?' ∧ c ≠ '/') (rest : List Char) :
      Opens mode (blanks ++ ['<']) (c :: rest) startTag next
  | cdata (depth : Nat) (rest : List Char) :
      Opens (.content (depth + 1)) "<![CDATA[".toList rest cdata (.content (depth + 1))
  | endTag (depth : Nat) (rest : List Char) :
      Opens (.content (depth + 1)) "</".toList rest (endTag ("</".toList ++ rest)) (.content depth)
  | text (depth : Nat) {c : Char} (hc : c ≠ '<') (rest : List Char) :
      Opens (.content (depth + 1)) [] (c :: rest) text (.content (depth + 1))
  | emptyTagEnd (depth : Nat) {blanks : List Char} (hblanks : ∀ c ∈ blanks, isSpace c)
      (rest : List Char) :
      Opens (.tag depth) (blanks ++ ['/']) rest (do char '>'; return .startTagEnd true)
        (.content depth)
  | startTagEnd (depth : Nat) {blanks : List Char} (hblanks : ∀ c ∈ blanks, isSpace c)
      (rest : List Char) :
      Opens (.tag depth) (blanks ++ ['>']) rest (pure (.startTagEnd false)) (.content (depth + 1))
  | assignment (depth : Nat) {blanks : List Char} (hblanks : ∀ c ∈ blanks, isSpace c)
      (hne : blanks ≠ []) {c : Char} (hc : ¬ isSpace c ∧ c ≠ '/' ∧ c ≠ '>') (rest : List Char) :
      Opens (.tag depth) blanks (c :: rest) assignment (.tag depth)

theorem bind_of_ok {α β : Type} {p : Scan α} {f : α → Scan β} {s r : List Char} {a : α}
    (h : p s = .ok (a, r)) : (p >>= f) s = f a r := by
  simp only [bind, StateT.bind, Except.bind, h]

theorem bind_eq_ok_iff {α β : Type} {p : Scan α} {f : α → Scan β} {s r : List Char} {b : β} :
    (p >>= f) s = .ok (b, r) ↔ ∃ a m, p s = .ok (a, m) ∧ f a m = .ok (b, r) := by
  constructor
  · intro h
    simp only [bind, StateT.bind, Except.bind] at h
    split at h
    next => cases h
    next x hx => exact ⟨x.1, x.2, hx, h⟩
  · rintro ⟨a, m, hp, hf⟩
    exact (bind_of_ok hp).trans hf

theorem emit_of_ok {p : Scan Token} {next : Mode} {s rest : List Char} {token : Token}
    (h : p s = .ok (token, rest)) : emit p next s = .ok (some (token, next), rest) := by
  rw [emit, h]
  rfl

theorem aside?_comment (rest : List Char) :
    aside? ("<!--".toList ++ rest) = some (comment ("<!--".toList ++ rest), rest) := by
  rw [aside?, Text.strip?_append]

theorem aside?_instruction (rest : List Char) :
    aside? ("<?".toList ++ rest) = some (instruction ("<?".toList ++ rest), rest) := by
  have hcomment : Text.strip? "<!--".toList ("<?".toList ++ rest) = none := rfl
  rw [aside?, hcomment, Text.strip?_append]
  rfl

theorem aside?_of_startTag {c : Char} (hc : c ≠ '!' ∧ c ≠ '?' ∧ c ≠ '/') (rest : List Char) :
    aside? ('<' :: c :: rest) = none := by
  simp [aside?, Text.strip?, Ne.symm hc.1, Ne.symm hc.2.1]

theorem dropWhile_isSpace_append {blanks : List Char} (h : ∀ c ∈ blanks, isSpace c) {c : Char}
    (hc : ¬ isSpace c) (rest : List Char) :
    (blanks ++ c :: rest).dropWhile isSpace = c :: rest := by
  rw [List.dropWhile_append_of_pos h, List.dropWhile_cons_of_neg hc]

theorem exists_blanks (s : List Char) :
    ∃ blanks, (∀ c ∈ blanks, isSpace c) ∧ s = blanks ++ s.dropWhile isSpace :=
  ⟨s.takeWhile isSpace, List.all_eq_true.mp List.all_takeWhile,
    List.takeWhile_append_dropWhile.symm⟩

theorem not_isSpace_of_dropWhile {s : List Char} {c : Char} {t : List Char}
    (h : s.dropWhile isSpace = c :: t) : ¬ isSpace c := by
  have hhead := List.head?_dropWhile_not isSpace s
  simp only [h, List.head?_cons] at hhead
  simp [hhead]

theorem step_of_aside? {mode : Mode} (hmode : mode.isTag = false) {blanks : List Char}
    (gap : mode.IsGap blanks) {c : Char} (hc : ¬ isSpace c) {s rest : List Char} {p : Scan Token}
    (h : aside? (c :: s) = some (p, rest)) : step mode (blanks ++ c :: s) = emit p mode rest := by
  have hdrop := dropWhile_isSpace_append gap.1 hc s
  match mode with
  | .outset => simp only [step, stepOutset, hdrop, h]
  | .content 0 => simp only [step, stepEpilogue, hdrop, h]
  | .content (depth + 1) =>
    obtain rfl := gap.2 depth rfl
    simp only [step, stepContent, List.nil_append, h]

theorem step_of_opens {mode next : Mode} {front rest r : List Char} {p : Scan Token} {token : Token}
    (h : Opens mode front rest p next) (read : p rest = .ok (token, r)) :
    step mode (front ++ rest) = .ok (some (token, next), r) := by
  cases h with
  | comment hmode gap =>
    rw [List.append_assoc]
    exact (step_of_aside? hmode gap (by decide) (aside?_comment rest)).trans (emit_of_ok read)
  | instruction hmode gap =>
    rw [List.append_assoc]
    exact (step_of_aside? hmode gap (by decide) (aside?_instruction rest)).trans (emit_of_ok read)
  | @startTag _ _ blanks hnext gap c hc rest =>
    have hdrop := dropWhile_isSpace_append gap.1 (c := '<') (by decide) (c :: rest)
    have haside := aside?_of_startTag hc rest
    rw [List.append_assoc]
    match mode with
    | .outset =>
      cases hnext
      have hdoctype : beginsWith "<!DOCTYPE" ('<' :: c :: rest) = false := by
        simp [beginsWith, Text.strip?, Ne.symm hc.1]
      simp only [step, stepOutset, List.singleton_append, hdrop, haside, hdoctype]
      exact emit_of_ok read
    | .content (depth + 1) =>
      cases hnext
      obtain rfl := gap.2 depth rfl
      obtain ⟨hbang, -, hslash⟩ := hc
      have hcdata : Text.strip? "<![CDATA[".toList ('<' :: c :: rest) = none := by
        simp [Text.strip?, Ne.symm hbang]
      simp only [step, stepContent, List.nil_append, List.singleton_append, haside, hcdata]
      split
      next e => cases e
      next e => cases e
      next e =>
        cases e
        exact absurd rfl hbang
      next e =>
        cases e
        exact absurd rfl hslash
      next e =>
        cases e
        exact emit_of_ok read
      next hopen => exact absurd rfl (hopen _)
  | cdata depth =>
    have haside : aside? ("<![CDATA[".toList ++ rest) = none := rfl
    simp only [step, stepContent, haside, Text.strip?_append]
    exact emit_of_ok read
  | endTag depth => exact emit_of_ok read
  | @text depth c hc rest =>
    have haside : aside? (c :: rest) = none := by
      simp [aside?, Text.strip?, Ne.symm hc]
    have hcdata : Text.strip? "<![CDATA[".toList (c :: rest) = none := by
      simp [Text.strip?, Ne.symm hc]
    simp only [step, stepContent, List.nil_append, haside, hcdata]
    split
    next e => cases e
    next e => exact absurd (List.cons.inj e).1 hc
    next e => exact absurd (List.cons.inj e).1 hc
    next e => exact absurd (List.cons.inj e).1 hc
    next e => exact absurd (List.cons.inj e).1 hc
    next => exact emit_of_ok read
  | @emptyTagEnd depth blanks hblanks =>
    have hdrop := dropWhile_isSpace_append hblanks (c := '/') (by decide) rest
    have hstep : step (.tag depth) (blanks ++ '/' :: rest) =
        (char '>' rest).map fun x => (some (.startTagEnd true, .content depth), x.2) := by
      simp only [step, stepTag, hdrop]
      cases blanks <;> rfl
    rw [List.append_assoc, List.singleton_append, hstep]
    simp only [bind, StateT.bind, Except.bind] at read
    split at read
    next => cases read
    next hchar =>
      cases read
      rw [hchar]
      rfl
  | @startTagEnd depth blanks hblanks =>
    have hdrop := dropWhile_isSpace_append hblanks (c := '>') (by decide) rest
    cases read
    rw [List.append_assoc, List.singleton_append]
    simp only [step, stepTag, hdrop]
    cases blanks <;> rfl
  | @assignment depth blanks hblanks hne c hc rest =>
    obtain ⟨hspace, hslash, hclosing⟩ := hc
    have hdrop := dropWhile_isSpace_append hblanks hspace rest
    obtain ⟨b, blanks, rfl⟩ := List.exists_cons_of_ne_nil hne
    have hb : isSpace b = true := hblanks b (by simp)
    rw [List.cons_append] at hdrop ⊢
    simp only [step, stepTag, hdrop, hb, if_true]
    exact emit_of_ok read

/-! ### What a step has read -/

theorem startsName_of_ofChars? {word : List Char} {q : QName} (h : QName.ofChars? word = some q) :
    startsName word := by
  cases word with
  | nil => cases h
  | cons c t =>
    by_cases hc : c = ':'
    · subst hc
      rfl
    · have hcolon : (c != ':') = true := by simpa using hc
      simp only [QName.ofChars?, List.takeWhile_cons_of_pos (p := (· != ':')) hcolon,
        List.dropWhile_cons_of_pos (p := (· != ':')) hcolon] at h
      split at h
      next =>
        split at h
        next hstart => exact hstart
        next => cases h
      next =>
        split at h
        next hparts =>
          simp only [List.isEmpty_cons, Bool.false_or, Bool.and_eq_true] at hparts
          exact hparts.1.2
        next => cases h

theorem exists_cons_of_startTag {s r : List Char} {token : Token}
    (h : startTag s = .ok (token, r)) : ∃ c t, s = c :: t ∧ c ≠ '!' ∧ c ≠ '?' ∧ c ≠ '/' := by
  simp only [startTag, mark, qualifiedName, bind, StateT.bind, Except.bind] at h
  split at h
  next => cases h
  next hname =>
    split at hname
    next q hq =>
      have hstart := startsName_of_ofChars? hq
      cases s with
      | nil => cases hstart
      | cons c t =>
        have hc : isNameStart c := by
          by_cases hpart : isNamePart c
          · rwa [List.takeWhile_cons_of_pos hpart] at hstart
          · rw [List.takeWhile_cons_of_neg hpart] at hstart
            cases hstart
        refine ⟨c, t, rfl, ?_, ?_, ?_⟩ <;> · rintro rfl; revert hc; decide
    next => cases hname

theorem eq_of_aside? {s rest : List Char} {p : Scan Token} (h : aside? s = some (p, rest)) :
    s = "<!--".toList ++ rest ∧ p = comment s ∨ s = "<?".toList ++ rest ∧ p = instruction s := by
  rw [aside?] at h
  split at h
  next hstrip =>
    cases h
    exact .inl ⟨eq_append_of_strip? hstrip, rfl⟩
  next =>
    obtain ⟨t, hstrip, heq⟩ := Option.map_eq_some_iff.mp h
    cases heq
    exact .inr ⟨eq_append_of_strip? hstrip, rfl⟩

section

variable {next : Mode} {s r : List Char} {token : Token}

theorem exists_opens_of_aside? {mode : Mode} (hmode : mode.isTag = false) {blanks rest : List Char}
    (gap : mode.IsGap blanks) {p : Scan Token} (haside : aside? s = some (p, rest))
    (h : emit p mode rest = .ok (some (token, next), r)) :
    ∃ front rest p, blanks ++ s = front ++ rest ∧ Opens mode front rest p next ∧
      p rest = .ok (token, r) := by
  obtain ⟨hread, rfl⟩ := emit_eq_ok h
  rcases eq_of_aside? haside with ⟨rfl, rfl⟩ | ⟨rfl, rfl⟩
  · exact ⟨_, rest, _, (List.append_assoc ..).symm, .comment hmode gap rest, hread⟩
  · exact ⟨_, rest, _, (List.append_assoc ..).symm, .instruction hmode gap rest, hread⟩

theorem exists_opens_of_stepOutset (h : stepOutset s = .ok (some (token, next), r)) :
    ∃ front rest p, s = front ++ rest ∧ Opens .outset front rest p next ∧
      p rest = .ok (token, r) := by
  obtain ⟨blanks, hblanks, hs⟩ := exists_blanks s
  have gap : Mode.outset.IsGap blanks := ⟨hblanks, nofun⟩
  simp only [stepOutset] at h
  generalize s.dropWhile isSpace = t at h hs
  rw [hs]
  split at h
  next haside => exact exists_opens_of_aside? rfl gap haside h
  next =>
    split at h
    next => cases h
    next =>
      split at h
      next => cases h
      next =>
        obtain ⟨hread, rfl⟩ := emit_eq_ok h
        obtain ⟨c, u, rfl, hc⟩ := exists_cons_of_startTag hread
        exact ⟨blanks ++ ['<'], c :: u, startTag, List.append_cons ..,
          .startTag rfl gap hc u, hread⟩
      next => cases h

theorem exists_opens_of_stepEpilogue (h : stepEpilogue s = .ok (some (token, next), r)) :
    ∃ front rest p, s = front ++ rest ∧ Opens (.content 0) front rest p next ∧
      p rest = .ok (token, r) := by
  obtain ⟨blanks, hblanks, hs⟩ := exists_blanks s
  have gap : (Mode.content 0).IsGap blanks := ⟨hblanks, nofun⟩
  simp only [stepEpilogue] at h
  generalize s.dropWhile isSpace = t at h hs
  rw [hs]
  split at h
  next haside => exact exists_opens_of_aside? rfl gap haside h
  next => split at h <;> cases h

variable {depth : Nat}

theorem exists_opens_of_stepTag (h : stepTag depth s = .ok (some (token, next), r)) :
    ∃ front rest p, s = front ++ rest ∧ Opens (.tag depth) front rest p next ∧
      p rest = .ok (token, r) := by
  obtain ⟨blanks, hblanks, hs⟩ := exists_blanks s
  simp only [stepTag] at h
  cases hdrop : s.dropWhile isSpace with
  | nil => rw [hdrop] at h; cases s <;> cases h
  | cons d t =>
    rw [hdrop] at h hs
    have hd := not_isSpace_of_dropWhile hdrop
    split at h
    next => cases h
    next e => cases e
    next u e =>
      cases e
      cases hchar : char '>' t with
      | error f => rw [hchar] at h; cases h
      | ok x =>
        rw [hchar] at h
        cases h
        exact ⟨blanks ++ ['/'], t, _, by simpa using hs, .emptyTagEnd depth hblanks t,
          bind_of_ok hchar⟩
    next u e =>
      cases e
      cases h
      exact ⟨blanks ++ ['>'], _, _, by simpa using hs, .startTagEnd depth hblanks _, rfl⟩
    next c u _ _ hslash hclosing e =>
      cases e
      split at h
      next hc =>
        obtain ⟨hread, rfl⟩ := emit_eq_ok h
        have hne : blanks ≠ [] := by
          rintro rfl
          cases hs
          exact hd hc
        exact ⟨blanks, d :: t, _, hs, .assignment depth hblanks hne ⟨hd, hslash, hclosing⟩ t, hread⟩
      next => cases h

theorem exists_opens_of_stepContent (h : stepContent depth s = .ok (some (token, next), r)) :
    ∃ front rest p, s = front ++ rest ∧ Opens (.content (depth + 1)) front rest p next ∧
      p rest = .ok (token, r) := by
  have gap := Mode.IsGap.nil (.content (depth + 1))
  simp only [stepContent] at h
  split at h
  next haside => exact exists_opens_of_aside? rfl gap haside h
  next =>
    split at h
    next rest hcdata =>
      obtain ⟨hread, rfl⟩ := emit_eq_ok h
      exact ⟨_, rest, cdata, eq_append_of_strip? hcdata, .cdata depth rest, hread⟩
    next =>
      split at h
      next => cases h
      next => cases h
      next => cases h
      next rest _ _ =>
        obtain ⟨hread, rfl⟩ := emit_eq_ok h
        exact ⟨_, rest, _, rfl, .endTag depth rest, hread⟩
      next =>
        obtain ⟨hread, rfl⟩ := emit_eq_ok h
        obtain ⟨c, u, rfl, hc⟩ := exists_cons_of_startTag hread
        exact ⟨['<'], c :: u, startTag, rfl, .startTag rfl gap hc u, hread⟩
      next hnil _ _ _ hopen =>
        obtain ⟨hread, rfl⟩ := emit_eq_ok h
        cases s with
        | nil => exact absurd rfl hnil
        | cons c t =>
          have hc : c ≠ '<' := fun e => hopen t (by rw [e])
          exact ⟨[], c :: t, text, rfl, .text depth hc t, hread⟩

end

theorem step_eq_ok_iff {mode next : Mode} {s r : List Char} {token : Token} :
    step mode s = .ok (some (token, next), r) ↔
      ∃ front rest p, s = front ++ rest ∧ Opens mode front rest p next ∧
        p rest = .ok (token, r) := by
  constructor
  · intro h
    cases mode with
    | outset => exact exists_opens_of_stepOutset h
    | tag depth => exact exists_opens_of_stepTag h
    | content depth =>
      cases depth with
      | zero => exact exists_opens_of_stepEpilogue h
      | succ depth => exact exists_opens_of_stepContent h
  · rintro ⟨front, rest, p, rfl, hopens, hread⟩
    exact step_of_opens hopens hread

/-! ### Where a token stands -/

/-- Every result of a scan has a property. -/
def Yields {α : Type} (property : α → Prop) (p : Scan α) : Prop :=
  ∀ (s r : List Char) (a : α), p s = .ok (a, r) → property a

section

variable {α β : Type} {property : β → Prop}

theorem yields_bind {p : Scan α} {f : α → Scan β} (h : ∀ a, Yields property (f a)) :
    Yields property (p >>= f) := by
  intro s r b hread
  obtain ⟨a, m, -, hf⟩ := bind_eq_ok_iff.mp hread
  exact h a m r b hf

theorem yields_pure {b : β} (h : property b) : Yields property (pure b) := by
  intro s r a hread
  cases hread
  exact h

theorem yields_fail (cause : Cause) (place : Mark) : Yields property (fail cause place) := by
  intro s r a hread
  cases hread

theorem yields_ite {c : Prop} [Decidable c] {p q : Scan β} (hp : Yields property p)
    (hq : Yields property q) : Yields property (if c then p else q) := by
  by_cases h : c
  · rwa [if_pos h]
  · rwa [if_neg h]

end

theorem place_of_step {mode next : Mode} {s r : List Char} {token : Token}
    (h : step mode s = .ok (some (token, next), r)) :
    mode.isTag = token.isInTag ∧ next.isTag = token.leavesInTag := by
  obtain ⟨front, rest, p, -, hopens, hread⟩ := step_eq_ok_iff.mp h
  have within (hmode : mode.isTag = false) (hnext : next.isTag = false)
      (hp : Yields (fun token => token.isInTag = false ∧ token.leavesInTag = false) p) :
      mode.isTag = token.isInTag ∧ next.isTag = token.leavesInTag := by
    rw [hmode, hnext, (hp _ _ _ hread).1, (hp _ _ _ hread).2]
    exact ⟨rfl, rfl⟩
  cases hopens with
  | comment hmode gap =>
    exact within hmode hmode (yields_bind fun _ => yields_bind fun _ => yields_ite (yields_fail _ _)
      (yields_pure ⟨rfl, rfl⟩))
  | instruction hmode gap =>
    exact within hmode hmode
        (yields_ite (yields_fail _ _) (yields_bind fun _ => yields_bind fun _ =>
      yields_bind fun _ => yields_bind fun _ => yields_pure ⟨rfl, rfl⟩))
  | startTag hnext gap hc =>
    have hp : Yields (fun token => token.isInTag = false ∧ token.leavesInTag = true) startTag :=
      yields_bind fun _ => yields_bind fun _ => yields_pure ⟨rfl, rfl⟩
    rw [(hp _ _ _ hread).1, (hp _ _ _ hread).2]
    exact Mode.isTag_of_entered? hnext
  | cdata => exact within rfl rfl (yields_bind fun _ => yields_bind fun _ => yields_pure ⟨rfl, rfl⟩)
  | endTag =>
    exact within rfl rfl (yields_bind fun _ => yields_bind fun _ => yields_bind fun _ =>
      yields_pure ⟨rfl, rfl⟩)
  | text =>
    exact within rfl rfl (yields_bind fun _ => yields_bind fun _ => yields_ite (yields_fail _ _)
      (yields_bind fun _ => yields_pure ⟨rfl, rfl⟩))
  | emptyTagEnd =>
    have hp : Yields (fun token : Token => token.isInTag = true ∧ token.leavesInTag = false)
        (do char '>'; return .startTagEnd true) := yields_bind fun _ => yields_pure ⟨rfl, rfl⟩
    rw [(hp _ _ _ hread).1, (hp _ _ _ hread).2]
    exact ⟨rfl, rfl⟩
  | startTagEnd =>
    cases hread
    exact ⟨rfl, rfl⟩
  | assignment =>
    have hp : Yields (fun token => token.isInTag = true ∧ token.leavesInTag = true) assignment :=
      yields_bind fun _ => yields_bind fun _ => yields_bind fun _ => yields_pure ⟨rfl, rfl⟩
    rw [(hp _ _ _ hread).1, (hp _ _ _ hread).2]
    exact ⟨rfl, rfl⟩

end Scan

end SchemaDoc.Xml
