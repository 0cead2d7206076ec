import Mathlib.Data.List.Infix
import SchemaDoc.Proofs.Xml.Opening

/-!
# What was read does not depend on what follows

A scan that has stopped somewhere would have read the same if the text went on in another way from
there, provided that the other text begins with an opening bracket, which ends names, texts and
blanks (`Scan.step_transfer`). Only a declaration is looked at more than one character ahead; there
it is enough that a closing bracket is still to come (`Scan.preamble_transfer`). Only the marks
change, as they hold the rest of the text.
-/
namespace SchemaDoc.Xml

/-- Two tokens that differ in their marks alone. -/
inductive Token.Alike : Token → Token → Prop
  | startTag (name : QName) (mark mark' : Mark) : Alike (.startTag name mark) (.startTag name mark')
  | assignment (name : QName) (value : String) (mark mark' : Mark) :
      Alike (.assignment name value mark) (.assignment name value mark')
  | startTagEnd (isEmpty : Bool) : Alike (.startTagEnd isEmpty) (.startTagEnd isEmpty)
  | endTag (name : QName) (mark mark' : Mark) : Alike (.endTag name mark) (.endTag name mark')
  | text (content : String) : Alike (.text content) (.text content)
  | comment (content : String) : Alike (.comment content) (.comment content)
  | instruction (target content : String) :
      Alike (.instruction target content) (.instruction target content)

theorem beginsWith_iff {word : String} {s : List Char} : beginsWith word s ↔ word.toList <+: s := by
  rw [beginsWith, Option.isSome_iff_exists]
  exact exists_congr fun r => Text.strip?_eq_some_iff.trans eq_comm

theorem beginsWith_append_of_length_le {word : String} {a : List Char}
    (h : word.toList.length ≤ a.length) (b : List Char) :
    beginsWith word (a ++ b) = beginsWith word a := by
  rw [Bool.eq_iff_iff, beginsWith_iff, beginsWith_iff]
  exact ⟨fun hab => List.prefix_of_prefix_length_le hab (List.prefix_append a b) h,
    fun ha => ha.trans (List.prefix_append a b)⟩

/-- A word with no closing bracket but at its end begins before the closing bracket that comes next,
if at all. -/
theorem prefix_append_iff_of_mem {word a : List Char} (hword : '>' ∉ word.dropLast) (ha : '>' ∈ a)
    (b : List Char) : word <+: a ++ b ↔ word <+: a := by
  refine ⟨fun h => ?_, fun h => h.trans (List.prefix_append a b)⟩
  rcases Nat.lt_or_ge a.length word.length with hlt | hge
  · obtain ⟨more, rfl⟩ := List.prefix_of_prefix_length_le (List.prefix_append a b) h hlt.le
    have hmore : more ≠ [] := by
      rintro rfl
      simp at hlt
    rw [List.dropLast_append_of_ne_nil hmore] at hword
    exact absurd (List.mem_append_left _ ha) hword
  · exact List.prefix_of_prefix_length_le h (List.prefix_append a b) hge

theorem prefix_of_prefix_append_bracket {word a b : List Char} (hword : '<' ∉ word)
    (h : word <+: a ++ '<' :: b) : word <+: a := by
  rcases Nat.lt_or_ge a.length word.length with hlt | hge
  · have hbracket : a ++ ['<'] <+: word := by
      rw [List.append_cons] at h
      refine List.prefix_of_prefix_length_le (List.prefix_append _ b) h ?_
      rw [List.length_append, List.length_singleton]
      exact hlt
    exact absurd (hbracket.subset (by simp)) hword
  · exact List.prefix_of_prefix_length_le h (List.prefix_append a _) hge

theorem beginsWith_append_of_mem {word : String} (hword : '>' ∉ word.toList.dropLast)
    {a : List Char} (ha : '>' ∈ a) (b : List Char) :
    beginsWith word (a ++ b) = beginsWith word a := by
  rw [Bool.eq_iff_iff, beginsWith_iff, beginsWith_iff, prefix_append_iff_of_mem hword ha]

namespace Scan

theorem char_eq_ok_iff {c : Char} {s r : List Char} {u : Unit} :
    char c s = .ok (u, r) ↔ s = c :: r := by
  cases s with
  | nil => simp [char]
  | cons d t =>
    rw [char]
    split <;> simp_all

theorem word_eq_ok_iff {w : String} {s r : List Char} {u : Unit} :
    word w s = .ok (u, r) ↔ s = w.toList ++ r := by
  rw [← Text.strip?_eq_some_iff, word]
  split <;> simp_all

theorem quote_eq_ok_iff {s r : List Char} {q : Char} :
    quote s = .ok (q, r) ↔ s = q :: r ∧ (q = '\'' ∨ q = '"') := by
  cases s with
  | nil => simp [quote]
  | cons c t =>
    rw [quote]
    split
    next h =>
      simp only [Except.ok.injEq, Prod.mk.injEq, List.cons.injEq]
      exact ⟨by rintro ⟨rfl, rfl⟩; exact ⟨⟨rfl, rfl⟩, h⟩, fun h => h.1⟩
    next h =>
      simp only [reduceCtorEq, List.cons.injEq, false_iff]
      rintro ⟨⟨rfl, -⟩, hq⟩
      exact h hq

/-- Where a run stops: at the first place where it should, which is a place with an allowed
character, or at the end. -/
theorem run_eq_ok_iff {stop : List Char → Bool} {s taken r : List Char} :
    run stop s = .ok (taken, r) ↔ s = taken ++ r ∧ (∀ c ∈ taken, isAllowed c) ∧
      (∀ a c b, taken = a ++ c :: b → stop (c :: b ++ r) = false) ∧
      (∀ c b, r = c :: b → isAllowed c ∧ stop r = true) := by
  constructor
  · intro h
    fun_induction run stop s generalizing taken r with
    | case1 =>
      cases h
      simp
    | case2 => cases h
    | case3 c s hc hstop =>
      cases h
      simp_all
    | case4 c s hc hstop more rest hmore ih =>
      cases h
      obtain ⟨hs, hallowed, hgoing, hend⟩ := ih hmore
      have hc : isAllowed c := by simpa using hc
      refine ⟨by rw [hs, List.cons_append], List.forall_mem_cons.mpr ⟨hc, hallowed⟩, ?_, hend⟩
      intro a d b hab
      cases a with
      | nil =>
        obtain ⟨rfl, rfl⟩ := List.cons.inj hab
        rw [List.cons_append, ← hs]
        simpa using hstop
      | cons e a => exact hgoing a d b (List.cons.inj hab).2
    | case5 => cases h
  · rintro ⟨rfl, hallowed, hgoing, hend⟩
    have hrest : run stop r = .ok ([], r) := by
      cases r with
      | nil => rfl
      | cons c b =>
        obtain ⟨hc, hstop⟩ := hend c b rfl
        rw [run, hc, hstop]
        rfl
    rw [run_append hallowed hgoing, hrest]
    simp [Except.map]

/-! ### Transfer -/

variable {α β γ δ : Type} {t t' marks : List Char}

/-- What `p` reads in front of `t` is read by `q` in front of `t'`, with related results, if what is
left before `t` still has the characters `marks`. -/
structure Transfers (t t' marks : List Char) (R : α → β → Prop) (p : Scan α) (q : Scan β) :
    Prop where
  reads : Reads p
  read : ∀ {s r : List Char} {a : α}, p (s ++ t) = .ok (a, r ++ t) → marks ⊆ r →
    ∃ b, q (s ++ t') = .ok (b, r ++ t') ∧ R a b

namespace Transfers

variable {R : α → β → Prop} {S : γ → δ → Prop}

theorem bindOf {p : Scan α} {q : Scan β} {f : α → Scan γ} {g : β → Scan δ}
    (hp : Transfers t t' marks R p q) (reads : ∀ a, Reads (f a))
    (hf : ∀ a b, R a b → Transfers t t' marks S (f a) (g b)) :
    Transfers t t' marks S (p >>= f) (q >>= g) := by
  refine ⟨reads_bind hp.reads reads, fun {s r c} h hmarks => ?_⟩
  obtain ⟨a, m, hpa, hfa⟩ := bind_eq_ok_iff.mp h
  obtain ⟨front, rfl⟩ := reads a hfa
  rw [← List.append_assoc] at hpa hfa
  obtain ⟨b, hqb, hab⟩ := hp.read hpa (List.subset_append_of_subset_right front hmarks)
  obtain ⟨d, hgd, hcd⟩ := (hf a b hab).read hfa hmarks
  exact ⟨d, (bind_of_ok hqb).trans hgd, hcd⟩

theorem bind {p q : Scan α} {f : α → Scan γ} {g : α → Scan δ} (hp : Transfers t t' marks Eq p q)
    (hf : ∀ a, Transfers t t' marks S (f a) (g a)) : Transfers t t' marks S (p >>= f) (q >>= g) :=
  hp.bindOf (fun a => (hf a).reads) fun a _ hab => hab ▸ hf a

theorem pure {a : α} {b : β} (h : R a b) : Transfers t t' marks R (pure a) (pure b) := by
  refine ⟨reads_pure a, fun {s r c} hread _ => ?_⟩
  obtain ⟨rfl, hs⟩ := Prod.mk.inj (Except.ok.inj hread)
  obtain rfl := List.append_cancel_right hs
  exact ⟨b, rfl, h⟩

theorem fail (cause : Cause) (place : Mark) (q : Scan β) :
    Transfers t t' marks R (fail cause place) q :=
  ⟨reads_fail cause place, nofun⟩

theorem ite {c c' : Prop} [Decidable c] [Decidable c'] (h : c ↔ c') {p p' : Scan α} {q q' : Scan β}
    (hp : Transfers t t' marks R p q) (hp' : Transfers t t' marks R p' q') :
    Transfers t t' marks R (if c then p else p') (if c' then q else q') := by
  by_cases hc : c
  · rwa [if_pos hc, if_pos (h.mp hc)]
  · rwa [if_neg hc, if_neg (mt h.mpr hc)]

theorem mark :
    Transfers t t' marks (fun m m' => ∃ u, marks ⊆ u ∧ m = u ++ t ∧ m' = u ++ t') mark mark := by
  refine ⟨reads_mark, fun {s r m} h hmarks => ?_⟩
  obtain ⟨rfl, hs⟩ := Prod.mk.inj (Except.ok.inj h)
  obtain rfl := List.append_cancel_right hs
  exact ⟨_, rfl, s, hmarks, rfl, rfl⟩

theorem bind_mark {f : Mark → Scan γ} {g : Mark → Scan δ}
    (h : ∀ m m', Transfers t t' marks S (f m) (g m')) :
    Transfers t t' marks S (Scan.mark >>= f) (Scan.mark >>= g) :=
  mark.bindOf (fun m => (h m m).reads) fun m m' _ => h m m'

theorem char (c : Char) : Transfers t t' marks Eq (char c) (char c) := by
  refine ⟨reads_char c, fun {s r u} h _ => ?_⟩
  rw [char_eq_ok_iff, ← List.cons_append] at h
  obtain rfl := List.append_cancel_right h
  exact ⟨u, char_eq_ok_iff.mpr rfl, rfl⟩

theorem word (w : String) : Transfers t t' marks Eq (word w) (word w) := by
  refine ⟨reads_word w, fun {s r u} h _ => ?_⟩
  rw [word_eq_ok_iff, ← List.append_assoc] at h
  obtain rfl := List.append_cancel_right h
  exact ⟨u, word_eq_ok_iff.mpr (List.append_assoc ..), rfl⟩

theorem quote : Transfers t t' marks Eq quote quote := by
  refine ⟨reads_quote, fun {s r q} h _ => ?_⟩
  rw [quote_eq_ok_iff, ← List.cons_append] at h
  obtain ⟨hs, hq⟩ := h
  obtain rfl := List.append_cancel_right hs
  exact ⟨q, quote_eq_ok_iff.mpr ⟨rfl, hq⟩, rfl⟩

theorem resolved (join : List Piece → List Char) (raw : List Char) (stop stop' : Mark) :
    Transfers t t' marks Eq (resolved join raw stop) (resolved join raw stop') := by
  refine ⟨reads_resolved join raw stop, fun {s r a} h _ => ?_⟩
  unfold Scan.resolved at h ⊢
  split at h
  next ps hps =>
    obtain ⟨rfl, hs⟩ := Prod.mk.inj (Except.ok.inj h)
    obtain rfl := List.append_cancel_right hs
    exact ⟨_, rfl, rfl⟩
  next => cases h

theorem runTo {w : String} (hw : w.toList ≠ []) {f : List Char → Scan γ} {g : List Char → Scan δ}
    (h : ∀ a, Transfers t t' marks S (f a) (g a)) :
    Transfers t t' marks S (run (beginsWith w) >>= fun a => Scan.word w >>= fun _ => f a)
      (run (beginsWith w) >>= fun a => Scan.word w >>= fun _ => g a) := by
  refine ⟨reads_bind (reads_run _) fun a => reads_bind (reads_word _) fun _ => (h a).reads, ?_⟩
  intro s r c hread hmarks
  obtain ⟨taken, m, hrun, hmore⟩ := bind_eq_ok_iff.mp hread
  obtain ⟨⟨⟩, rest, hword, hf⟩ := bind_eq_ok_iff.mp hmore
  obtain ⟨front, rfl⟩ := (h taken).reads hf
  rw [word_eq_ok_iff] at hword
  subst hword
  obtain ⟨hs, allowed, going, stop⟩ := run_eq_ok_iff.mp hrun
  have hs : s = taken ++ (w.toList ++ (front ++ r)) := by
    refine List.append_cancel_right (hs.trans ?_)
    simp only [List.append_assoc]
  rw [← List.append_assoc] at hf
  obtain ⟨d, hg, hcd⟩ := (h taken).read hf hmarks
  refine ⟨d, ?_, hcd⟩
  have hrun' : run (beginsWith w) (s ++ t') = .ok (taken, w.toList ++ (front ++ r ++ t')) := by
    refine run_eq_ok_iff.mpr ⟨by simp [hs], allowed, fun a c b hab => ?_, fun c b hcb => ?_⟩
    · have hlong : w.toList.length ≤ (c :: b ++ w.toList).length := by
        rw [List.length_append]
        exact Nat.le_add_left ..
      have hgoing := going a c b hab
      rw [← List.append_assoc, beginsWith_append_of_length_le hlong] at hgoing ⊢
      exact hgoing
    · obtain ⟨d, word, hword⟩ := List.exists_cons_of_ne_nil hw
      rw [hword] at hcb
      obtain ⟨rfl, -⟩ := List.cons.inj hcb
      exact ⟨(stop d _ (by rw [hword]; rfl)).1, beginsWith_iff.mpr (List.prefix_append ..)⟩
  have hword : Scan.word w (w.toList ++ (front ++ r ++ t')) = .ok ((), front ++ r ++ t') :=
    word_eq_ok_iff.mpr rfl
  rw [bind_of_ok hrun', bind_of_ok hword]
  exact hg

/-! ### Before an opening bracket -/

variable {w : List Char}

/-- A span that has ended before `t` ends before an opening bracket as well. -/
theorem span_transfer {p : Char → Bool} (hp : ¬ p '<') {s r : List Char}
    (h : (s ++ t).dropWhile p = r ++ t) :
    (s ++ '<' :: w).takeWhile p = (s ++ t).takeWhile p ∧
      (s ++ '<' :: w).dropWhile p = r ++ '<' :: w := by
  have hsplit := List.takeWhile_append_dropWhile (p := p) (l := s ++ t)
  rw [h, ← List.append_assoc] at hsplit
  have hs := List.append_cancel_right hsplit
  have hall : ∀ c ∈ (s ++ t).takeWhile p, p c := List.all_eq_true.mp List.all_takeWhile
  generalize (s ++ t).takeWhile p = taken at hs hall
  subst hs
  have hend : (r ++ '<' :: w).takeWhile p = [] ∧ (r ++ '<' :: w).dropWhile p = r ++ '<' :: w := by
    cases r with
    | nil => exact ⟨List.takeWhile_cons_of_neg hp, List.dropWhile_cons_of_neg hp⟩
    | cons c r =>
      have hhead := List.head?_dropWhile_not p (taken ++ c :: r ++ t)
      rw [h] at hhead
      have hc : ¬ p c := by simpa using hhead
      exact ⟨List.takeWhile_cons_of_neg hc, List.dropWhile_cons_of_neg hc⟩
  rw [List.append_assoc, List.takeWhile_append_of_pos hall, List.dropWhile_append_of_pos hall,
    hend.1, hend.2, List.append_nil]
  exact ⟨rfl, rfl⟩

theorem spaces : Transfers t ('<' :: w) marks Eq spaces spaces := by
  refine ⟨reads_spaces, fun {s r u} h _ => ?_⟩
  obtain ⟨-, hrest⟩ := Prod.mk.inj (Except.ok.inj h)
  exact ⟨u, congrArg (fun s => Except.ok ((), s)) (span_transfer (by decide) hrest).2, rfl⟩

theorem name : Transfers t ('<' :: w) marks Eq name name := by
  refine ⟨reads_name, fun {s r a} h _ => ?_⟩
  unfold Scan.name at h
  split at h
  next hstart =>
    obtain ⟨rfl, hrest⟩ := Prod.mk.inj (Except.ok.inj h)
    cases s with
    | nil =>
      cases t with
      | nil => cases hstart
      | cons c t =>
        rw [List.nil_append, List.dropWhile_cons_of_pos (isNamePart_of_isNameStart hstart)] at hrest
        have hlength := (List.dropWhile_suffix isNamePart (l := t)).length_le
        rw [hrest, List.length_append, List.length_cons] at hlength
        omega
    | cons c s =>
      have hstart' : startsName (c :: s ++ '<' :: w) := hstart
      obtain ⟨htake, hdrop⟩ := span_transfer (w := w) (by decide) hrest
      rw [Scan.name, if_pos hstart', htake, hdrop]
      exact ⟨_, rfl, rfl⟩
  next => cases h

theorem qualifiedName : Transfers t ('<' :: w) marks Eq qualifiedName qualifiedName := by
  refine ⟨reads_qualifiedName, fun {s r q} h _ => ?_⟩
  unfold Scan.qualifiedName at h ⊢
  split at h
  next q' hq =>
    obtain ⟨rfl, hrest⟩ := Prod.mk.inj (Except.ok.inj h)
    obtain ⟨htake, hdrop⟩ := span_transfer (w := w) (by decide) hrest
    rw [htake, hdrop, hq]
    exact ⟨_, rfl, rfl⟩
  next => cases h

theorem run {stop : List Char → Bool} (hstop : ∀ c a b, stop (c :: a) = stop (c :: b))
    (hbracket : ∀ s, stop ('<' :: s) = true) :
    Transfers t ('<' :: w) marks Eq (run stop) (run stop) := by
  refine ⟨reads_run stop, fun {s r taken} h _ => ?_⟩
  obtain ⟨hs, allowed, going, hend⟩ := run_eq_ok_iff.mp h
  rw [← List.append_assoc] at hs
  obtain rfl := List.append_cancel_right hs
  refine ⟨taken,
    run_eq_ok_iff.mpr ⟨List.append_assoc .., allowed, fun a c b hab => ?_, fun c b hcb => ?_⟩, rfl⟩
  · exact (hstop c _ _).trans (going a c b hab)
  · cases r with
    | nil =>
      cases hcb
      exact ⟨by decide, hbracket _⟩
    | cons d r =>
      obtain ⟨rfl, -⟩ := List.cons.inj hcb
      have hd := hend d (r ++ t) rfl
      exact ⟨hd.1, (hstop d _ _).trans hd.2⟩

/-! ### Tokens -/

theorem assigned :
    Transfers t ('<' :: w) marks (fun x y => x.1 = y.1 ∧ x.2.1 = y.2.1) assigned assigned :=
  qualifiedName.bind fun _ => spaces.bind fun _ => (char _).bind fun _ => spaces.bind fun _ =>
    quote.bind fun _ => (run (fun _ _ _ => rfl) fun _ => by simp).bind fun _ =>
      bind_mark fun _ _ => (char _).bind fun _ => pure ⟨rfl, rfl⟩

theorem assignment : Transfers t ('<' :: w) marks Token.Alike assignment assignment := by
  refine bind_mark fun start start' => assigned.bindOf ?_ ?_
  · exact fun _ => reads_bind (reads_resolved _ _ _) fun _ => reads_pure _
  · rintro ⟨name, raw, stop⟩ ⟨_, _, stop'⟩ ⟨rfl, rfl⟩
    exact (resolved joinValue raw stop stop').bind fun value =>
      pure (.assignment name value start start')

theorem startTag : Transfers t ('<' :: w) marks Token.Alike startTag startTag :=
  bind_mark fun start start' => qualifiedName.bind fun name => pure (.startTag name start start')

theorem endTag (start start' : Mark) :
    Transfers t ('<' :: w) marks Token.Alike (endTag start) (endTag start') :=
  qualifiedName.bind fun name => spaces.bind fun _ => (char _).bind fun _ =>
    pure (.endTag name start start')

theorem text : Transfers t ('<' :: w) marks Token.Alike text text :=
  (run (fun _ _ _ => rfl) fun _ => rfl).bind fun raw => bind_mark fun stop stop' =>
    ite .rfl (fail _ _ _)
    ((resolved joinText raw stop stop').bind fun content => pure (.text content))

theorem cdata : Transfers t t' marks Token.Alike cdata cdata :=
  runTo (by simp) fun _ => pure (.text _)

theorem comment (start start' : Mark) :
    Transfers t t' marks Token.Alike (comment start) (comment start') :=
  runTo (by simp) fun _ => ite .rfl (fail _ _ _) (pure (.comment _))

theorem instruction (u : List Char) :
    Transfers t ('<' :: w) marks Token.Alike (instruction ("<?".toList ++ (u ++ t)))
      (instruction ("<?".toList ++ (u ++ '<' :: w))) := by
  have hbegins : beginsWith "<?xml " ("<?".toList ++ (u ++ '<' :: w)) →
      beginsWith "<?xml " ("<?".toList ++ (u ++ t)) := by
    simp only [beginsWith_iff]
    intro h
    have hword : "<?xml ".toList = "<?".toList ++ "xml ".toList := rfl
    rw [hword, List.prefix_append_right_inj] at h ⊢
    exact (prefix_of_prefix_append_bracket (by decide) h).trans (List.prefix_append u t)
  unfold Scan.instruction
  by_cases h : beginsWith "<?xml " ("<?".toList ++ (u ++ t))
  · rw [if_pos h]
    exact fail _ _ _
  · rw [if_neg h, if_neg (mt hbegins h)]
    exact name.bind fun _ => spaces.bind fun _ => runTo (by simp) fun _ => pure (.instruction _ _)

/-! ### The declaration -/

theorem beginsWith_eq {key : String} (hkey : '>' ∉ key.toList.dropLast) {s : List Char}
    (hs : ['>'] ⊆ s) : beginsWith key (s ++ t) = beginsWith key (s ++ t') := by
  have hbracket : '>' ∈ s := hs List.mem_cons_self
  rw [beginsWith_append_of_mem hkey hbracket, beginsWith_append_of_mem hkey hbracket]

theorem subset_of_reads {p : Scan α} (hp : Reads p) {s r : List Char} {a : α}
    (h : p (s ++ t) = .ok (a, r ++ t)) (hr : marks ⊆ r) : marks ⊆ s := by
  obtain ⟨front, hfront⟩ := hp h
  rw [← List.append_assoc] at hfront
  obtain rfl := List.append_cancel_right hfront
  exact List.subset_append_of_subset_right front hr

theorem reads_declarationGap : Reads declarationGap := by
  intro s u r h
  unfold Scan.declarationGap at h
  split at h
  next => cases h; exact List.suffix_rfl
  next => split at h <;> cases h; exact List.dropWhile_suffix _

theorem declarationGap : Transfers t ('<' :: w) ['>'] Eq declarationGap declarationGap := by
  refine ⟨reads_declarationGap, fun {s r u} h hr => ?_⟩
  have hs := subset_of_reads reads_declarationGap h hr
  cases s with
  | nil => cases hs List.mem_cons_self
  | cons c s =>
    have hbegins : beginsWith "?>" (c :: s ++ t) = beginsWith "?>" (c :: s ++ '<' :: w) :=
      beginsWith_eq (by decide) hs
    simp only [Scan.declarationGap, List.cons_append] at h hbegins ⊢
    rw [← hbegins]
    split at h
    next hc =>
      obtain ⟨-, hrest⟩ := Prod.mk.inj (Except.ok.inj h)
      rw [← List.cons_append] at hrest
      rw [if_pos hc, ← List.cons_append, (span_transfer (by decide) hrest).2]
      exact ⟨u, rfl, trivial⟩
    next => cases h

theorem ifBegins (key : String) (hkey : '>' ∉ key.toList.dropLast) {p : Scan Unit}
    (hp : Transfers t ('<' :: w) ['>'] Eq p p) :
    Transfers t ('<' :: w) ['>'] Eq (ifBegins key p) (ifBegins key p) := by
  have reads : Reads (Scan.ifBegins key p) := by
    intro s u r h
    unfold Scan.ifBegins at h
    split at h
    next => exact hp.reads h
    next => cases h; exact List.suffix_rfl
  refine ⟨reads, fun {s r u} h hr => ?_⟩
  have hbegins : beginsWith key (s ++ t) = beginsWith key (s ++ '<' :: w) :=
    beginsWith_eq hkey (subset_of_reads reads h hr)
  unfold Scan.ifBegins at h ⊢
  rw [← hbegins]
  split at h
  next hkey =>
    rw [if_pos hkey]
    exact hp.read h hr
  next hkey =>
    obtain ⟨-, hs⟩ := Prod.mk.inj (Except.ok.inj h)
    obtain rfl := List.append_cancel_right hs
    rw [if_neg hkey]
    exact ⟨u, rfl, rfl⟩

theorem declared : Transfers t ('<' :: w) marks Eq declared declared :=
  assigned.bindOf (fun _ => reads_pure _) fun _ _ _ => pure rfl

theorem declaration : Transfers t ('<' :: w) ['>'] Eq declaration declaration := by
  have part : Transfers t ('<' :: w) ['>'] Eq Scan.declared Scan.declared := declared
  have body := part.bind fun _ => declarationGap.bind fun _ =>
    (ifBegins "encoding" (by decide) (part.bind fun _ => declarationGap)).bind fun _ =>
      (ifBegins "standalone" (by decide) part).bind fun _ => spaces.bind fun _ => word "?>"
  refine spaces.bind fun _ => mark.bindOf (fun _ => (ite .rfl body (word "version")).reads) ?_
  rintro _ _ ⟨u, hu, rfl, rfl⟩
  exact ite (by rw [beginsWith_eq (by decide) hu]) body (word "version")

end Transfers

theorem strip?_append_of_mem {word a : List Char} (hword : '>' ∉ word.dropLast) (ha : '>' ∈ a)
    (b : List Char) : Text.strip? word (a ++ b) = (Text.strip? word a).map (· ++ b) := by
  cases h : Text.strip? word a with
  | some r =>
    rw [Text.eq_append_of_strip? h, List.append_assoc]
    exact Text.strip?_append word (r ++ b)
  | none =>
    rw [Option.map_none, Option.eq_none_iff_forall_ne_some]
    intro r hr
    have hfront : word <+: a ++ b := ⟨r, (Text.eq_append_of_strip? hr).symm⟩
    obtain ⟨r', rfl⟩ := (prefix_append_iff_of_mem hword ha b).mp hfront
    rw [Text.strip?_append] at h
    cases h

theorem reads_preamble : Reads preamble := by
  intro s u r h
  have hmark : (Text.strip? ['\uFEFF'] s).getD s <:+ s := by
    cases hs : Text.strip? ['\uFEFF'] s with
    | none => exact List.suffix_rfl
    | some r => exact ⟨_, (Text.eq_append_of_strip? hs).symm⟩
  unfold preamble at h
  refine List.IsSuffix.trans ?_ hmark
  generalize (Text.strip? ['\uFEFF'] s).getD s = v at h
  dsimp only at h
  split at h
  next r' hr' =>
    have hdeclaration : Reads declaration := (Transfers.declaration (t := []) (w := [])).reads
    exact (hdeclaration h).trans ⟨_, (Text.eq_append_of_strip? hr').symm⟩
  next =>
    cases h
    exact List.suffix_rfl

theorem preamble_transfer {s r : List Char} (h : preamble (s ++ t) = .ok ((), r ++ t))
    (hr : '>' ∈ r) : preamble (s ++ '<' :: w) = .ok ((), r ++ '<' :: w) := by
  have hs : ['>'] ⊆ s := Transfers.subset_of_reads reads_preamble h (by simpa using hr)
  obtain ⟨v, hv, hmark⟩ :
      ∃ v, '>' ∈ v ∧ ∀ b, (Text.strip? ['\uFEFF'] (s ++ b)).getD (s ++ b) = v ++ b := by
    have hstrip (b : List Char) : Text.strip? ['\uFEFF'] (s ++ b) =
        (Text.strip? ['\uFEFF'] s).map (· ++ b) :=
      strip?_append_of_mem (by simp) (hs List.mem_cons_self) b
    cases hfront : Text.strip? ['\uFEFF'] s with
    | none => exact ⟨s, hs List.mem_cons_self, fun b => by rw [hstrip, hfront]; rfl⟩
    | some v =>
      refine ⟨v, ?_, fun b => by rw [hstrip, hfront]; rfl⟩
      have hmem := hs List.mem_cons_self
      rw [Text.eq_append_of_strip? hfront] at hmem
      simpa using hmem
  have hopening (b : List Char) : Text.strip? "<?xml ".toList (v ++ b) =
      (Text.strip? "<?xml ".toList v).map (· ++ b) :=
    strip?_append_of_mem (by decide) hv b
  unfold preamble at h ⊢
  simp only [hmark, hopening] at h ⊢
  cases hdeclaration : Text.strip? "<?xml ".toList v with
  | none =>
    simp only [hdeclaration, Option.map_none] at h ⊢
    obtain ⟨-, hrest⟩ := Prod.mk.inj (Except.ok.inj h)
    rw [List.append_cancel_right hrest]
  | some u =>
    simp only [hdeclaration, Option.map_some] at h ⊢
    obtain ⟨_, hread, -⟩ := Transfers.declaration.read h (by simpa using hr)
    exact hread

/-! ### Steps -/

theorem Opens.reads {mode next : Mode} {front rest : List Char} {p : Scan Token}
    (h : Opens mode front rest p next) : Reads p := by
  cases h with
  | comment => exact reads_comment _
  | instruction => exact reads_instruction _
  | startTag => exact reads_startTag
  | cdata => exact reads_cdata
  | endTag => exact reads_endTag _
  | text => exact reads_text
  | emptyTagEnd => exact reads_bind (reads_char _) fun _ => reads_pure _
  | startTagEnd => exact reads_pure _
  | assignment => exact reads_assignment

/-- A text alone has no mark of its own, and then its first character is told by what comes. -/
theorem Opens.transfer {mode next : Mode} {front v : List Char} {p : Scan Token}
    (h : Opens mode front (v ++ t) p next) (hne : front ++ v ≠ []) :
    ∃ p', Opens mode front (v ++ '<' :: w) p' next ∧
      Transfers t ('<' :: w) [] Token.Alike p p' := by
  generalize hrest : v ++ t = rest at h
  cases h with
  | comment hmode gap => exact ⟨_, .comment hmode gap _, .comment _ _⟩
  | instruction hmode gap =>
    subst hrest
    exact ⟨_, .instruction hmode gap _, .instruction v⟩
  | startTag hnext gap hc =>
    refine ⟨_, ?_, .startTag⟩
    cases v with
    | nil => exact .startTag hnext gap (by decide) _
    | cons d v =>
      obtain ⟨rfl, -⟩ := List.cons.inj hrest
      exact .startTag hnext gap hc _
  | cdata depth => exact ⟨_, .cdata depth _, .cdata⟩
  | endTag depth => exact ⟨_, .endTag depth _, .endTag _ _⟩
  | text depth hc =>
    refine ⟨_, ?_, .text⟩
    obtain ⟨d, v, rfl⟩ := List.exists_cons_of_ne_nil (by simpa using hne)
    obtain ⟨rfl, -⟩ := List.cons.inj hrest
    exact .text depth hc _
  | emptyTagEnd depth hblanks =>
    exact ⟨_, .emptyTagEnd depth hblanks _, (Transfers.char '>').bind fun _ =>
      .pure (.startTagEnd true)⟩
  | startTagEnd depth hblanks => exact ⟨_, .startTagEnd depth hblanks _, .pure (.startTagEnd false)⟩
  | assignment depth hblanks hblank hc =>
    refine ⟨_, ?_, .assignment⟩
    cases v with
    | nil => exact .assignment depth hblanks hblank (by decide) _
    | cons d v =>
      obtain ⟨rfl, -⟩ := List.cons.inj hrest
      exact .assignment depth hblanks hblank hc _

theorem step_transfer {mode next : Mode} {s r : List Char} {token : Token}
    (h : step mode (s ++ t) = .ok (some (token, next), r ++ t)) :
    ∃ token', step mode (s ++ '<' :: w) = .ok (some (token', next), r ++ '<' :: w) ∧
      token.Alike token' := by
  obtain ⟨front, rest, p, hs, hopens, hread⟩ := step_eq_ok_iff.mp h
  obtain ⟨v, hv⟩ := hopens.reads hread
  rw [← hv, ← List.append_assoc, ← List.append_assoc] at hs
  obtain rfl := List.append_cancel_right hs
  rw [← hv, ← List.append_assoc] at hopens hread
  have hne : front ++ (v ++ r) ≠ [] := by
    intro hnil
    have hlength := length_lt_of_step h
    rw [List.append_assoc front, hnil, List.length_append] at hlength
    simp only [List.nil_append] at hlength
    omega
  obtain ⟨p', hopens', transfers⟩ := hopens.transfer (w := w) hne
  obtain ⟨token', hread', halike⟩ := transfers.read hread (List.nil_subset _)
  rw [List.append_assoc front, List.append_assoc front]
  exact ⟨token', step_of_opens hopens' hread', halike⟩

end Scan

end SchemaDoc.Xml
