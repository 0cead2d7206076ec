import SchemaDoc.Proofs.Xml.Transfer

/-!
# Comments and the texts around them

A comment may stand between any two tokens of an element's content, and is one token then
(`Scan.step_comment`). It may stand inside of a text as well, though not inside of a reference: the
text before it and the text after it are then read by themselves, where there was one text before
(`Scan.exists_texts_of_step`).
-/
namespace SchemaDoc.Xml

/-- What may stand between the marks of a comment. -/
structure IsComment (content : List Char) : Prop where
  allowed : ∀ c ∈ content, isAllowed c
  noHyphens : holds "--".toList (content ++ ['-']) = false

instance (content : List Char) : Decidable (IsComment content) :=
  decidable_of_iff (content.all isAllowed ∧ holds "--".toList (content ++ ['-']) = false)
    ⟨fun h => ⟨List.all_eq_true.mp h.1, h.2⟩, fun h =>
      ⟨List.all_eq_true.mpr h.allowed, h.noHyphens⟩⟩

def writeComment (content : List Char) : List Char :=
  "<!--".toList ++ (content ++ "-->".toList)

theorem holds_iff {word s : List Char} : holds word s ↔ word <:+: s := by
  induction s with
  | nil => cases word <;> simp [holds]
  | cons c s ih => rw [holds, Bool.or_eq_true, List.isPrefixOf_iff_prefix, ih, List.infix_cons_iff]

namespace Scan

/-- The end of a comment is not met before, as two hyphens would have to stand there. -/
theorem run_comment {content : List Char} (h : IsComment content) (rest : List Char) :
    run (beginsWith "-->") (content ++ ("-->".toList ++ rest)) =
      .ok (content, "-->".toList ++ rest) := by
  refine run_eq_ok_iff.mpr ⟨rfl, h.allowed, fun a c b hab => ?_, fun c b hcb => ?_⟩
  · rw [Bool.eq_false_iff]
    intro hend
    have hfront : "--".toList <+: c :: (b ++ ['-']) ++ ("->".toList ++ rest) := by
      have hmarks : "--".toList <+: "-->".toList := by decide
      simpa using hmarks.trans (beginsWith_iff.mp hend)
    have hhyphens : "--".toList <+: c :: (b ++ ['-']) :=
      List.prefix_of_prefix_length_le hfront (List.prefix_append _ _) (by simp)
    have hinfix : "--".toList <:+: content ++ ['-'] := by
      rw [hab, List.append_assoc]
      exact hhyphens.isInfix.trans (List.suffix_append a _).isInfix
    have hnone := h.noHyphens
    rw [holds_iff.mpr hinfix] at hnone
    cases hnone
  · cases hcb
    exact ⟨by decide, rfl⟩

theorem step_comment {content : List Char} (h : IsComment content) (depth : Nat)
    (rest : List Char) :
    step (.content (depth + 1)) (writeComment content ++ rest) =
      .ok (some (.comment (String.ofList content), .content (depth + 1)), rest) := by
  have hread (start : Mark) : comment start (content ++ ("-->".toList ++ rest)) =
      .ok (.comment (String.ofList content), rest) := by
    have hend : word "-->" ("-->".toList ++ rest) = .ok ((), rest) := word_eq_ok_iff.mpr rfl
    rw [comment, bind_of_ok (run_comment h rest), bind_of_ok hend, h.noHyphens]
    rfl
  have hopens :
      Opens (.content (depth + 1)) "<!--".toList (content ++ ("-->".toList ++ rest)) _ _ :=
    .comment rfl (.nil _) _
  rw [writeComment, List.append_assoc, List.append_assoc]
  exact step_of_opens hopens (hread _)

/-! ### Texts -/

theorem resolved_eq_ok_iff {join : List Piece → List Char} {raw s r : List Char} {stop : Mark}
    {content : String} :
    resolved join raw stop s = .ok (content, r) ↔
      r = s ∧ ∃ ps, pieces raw = .ok ps ∧ content = String.ofList (join ps) := by
  unfold resolved
  cases pieces raw <;> simp [eq_comm, and_comm]

theorem text_eq_ok_iff {s r : List Char} {token : Token} :
    text s = .ok (token, r) ↔ ∃ raw ps, run (fun s => s.head? == some '<') s = .ok (raw, r) ∧
      holds "]]>".toList raw = false ∧ pieces raw = .ok ps ∧
        token = .text (String.ofList (joinText ps)) := by
  constructor
  · intro h
    obtain ⟨raw, m, hrun, h⟩ := bind_eq_ok_iff.mp h
    obtain ⟨stop, m', hmark, h⟩ := bind_eq_ok_iff.mp h
    cases hmark
    split at h
    next => cases h
    next hend =>
      obtain ⟨content, m', hresolved, hpure⟩ := bind_eq_ok_iff.mp h
      cases hpure
      obtain ⟨rfl, ps, hps, rfl⟩ := resolved_eq_ok_iff.mp hresolved
      exact ⟨raw, ps, hrun, by simpa using hend, hps, rfl⟩
  · rintro ⟨raw, ps, hrun, hend, hps, rfl⟩
    rw [text, bind_of_ok hrun, bind_of_ok (a := r) rfl, hend, if_neg Bool.false_ne_true]
    exact bind_of_ok (resolved_eq_ok_iff.mpr ⟨rfl, ps, hps, rfl⟩)

end Scan

/-! ### References in texts that are cut -/

theorem afterSemicolon_append {s r : List Char} (h : afterSemicolon s = .ok r) (v : List Char) :
    afterSemicolon (s ++ v) = .ok (r ++ v) := by
  unfold afterSemicolon at h
  split at h
  next => cases h; rfl
  next => cases h

theorem span_append_of_afterSemicolon {p : Char → Bool} {s r : List Char}
    (h : afterSemicolon (s.dropWhile p) = .ok r) (v : List Char) :
    (s ++ v).takeWhile p = s.takeWhile p ∧ (s ++ v).dropWhile p = s.dropWhile p ++ v := by
  have hne : s.dropWhile p ≠ [] := by
    intro hnil
    rw [hnil] at h
    cases h
  have hlength : (s.takeWhile p).length ≠ s.length := by
    intro heq
    have htotal := congrArg List.length (List.takeWhile_append_dropWhile (p := p) (l := s))
    rw [List.length_append, heq] at htotal
    exact hne (List.length_eq_zero_iff.mp (by omega))
  rw [List.takeWhile_append, if_neg hlength, List.dropWhile_append, if_neg (by simpa using hne)]
  exact ⟨rfl, rfl⟩

theorem numberReference_append {base : Nat} {p : Char → Bool} {s r : List Char} {c : Char}
    (h : numberReference base p s = .ok (c, r)) (v : List Char) :
    numberReference base p (s ++ v) = .ok (c, r ++ v) := by
  unfold numberReference at h ⊢
  split at h
  next d hd =>
    cases hend : afterSemicolon (s.dropWhile p) with
    | error cause => rw [hend] at h; cases h
    | ok t =>
      rw [hend] at h
      cases h
      obtain ⟨htake, hdrop⟩ := span_append_of_afterSemicolon hend v
      rw [htake, hd, hdrop, afterSemicolon_append hend]
      rfl
  next => cases h

theorem nameReference_append {s r : List Char} {c : Char} (h : nameReference s = .ok (c, r))
    (v : List Char) : nameReference (s ++ v) = .ok (c, r ++ v) := by
  unfold nameReference at h ⊢
  split at h
  next hstart =>
    have hstart' : startsName (s ++ v) := by
      cases s with
      | nil => cases hstart
      | cons d s => exact hstart
    rw [if_pos hstart']
    dsimp only at h ⊢
    split at h
    next => cases h
    next => cases h
    next hend hname =>
      cases h
      obtain ⟨htake, hdrop⟩ := span_append_of_afterSemicolon hend v
      rw [htake, hdrop, afterSemicolon_append hend, hname]
  next => cases h

theorem reference_append {s r : List Char} {c : Char} (h : reference s = .ok (c, r))
    (v : List Char) : reference (s ++ v) = .ok (c, r ++ v) := by
  unfold reference at h
  split at h
  next digits => exact numberReference_append h v
  next digits hx =>
    cases digits with
    | nil => cases h
    | cons d digits =>
      have hd : d ≠ 'x' := fun e => hx digits (by rw [e])
      have hreference : reference ('#' :: d :: digits ++ v) =
          numberReference 10 Char.isDigit (d :: digits ++ v) := by
        simp [reference, hd]
      rw [hreference]
      exact numberReference_append h v
  next _ hnumber =>
    cases s with
    | nil => cases h
    | cons d s =>
      have hd : d ≠ '#' := fun e => hnumber s (by rw [e])
      have hreference : reference (d :: s ++ v) = nameReference (d :: s ++ v) := by
        simp [reference, hd]
      rw [hreference]
      exact nameReference_append h v

theorem pieces_append {s : List Char} {ps : List Piece} (h : pieces s = .ok ps) (v : List Char) :
    pieces (s ++ v) = (pieces v).map (ps ++ ·) := by
  fun_induction pieces s generalizing ps with
  | case1 =>
    cases h
    rw [List.nil_append]
    cases pieces v <;> rfl
  | case2 => cases h
  | case3 r d rest hreference ih =>
    cases hrest : pieces rest with
    | error f => rw [hrest] at h; cases h
    | ok qs =>
      rw [hrest] at h
      cases h
      rw [List.cons_append, pieces_reference (reference_append hreference v), ih hrest]
      cases pieces v <;> rfl
  | case4 c r hc ih =>
    cases hrest : pieces r with
    | error f => rw [hrest] at h; cases h
    | ok qs =>
      rw [hrest] at h
      cases h
      rw [List.cons_append, pieces_plain _ hc, ih hrest]
      cases pieces v <;> rfl

namespace Scan

theorem step_text_eq_ok_iff {c : Char} (hc : c ≠ '<') {depth : Nat} {s r : List Char}
    {token : Token} {next : Mode} :
    step (.content (depth + 1)) (c :: s) = .ok (some (token, next), r) ↔
      text (c :: s) = .ok (token, r) ∧ next = .content (depth + 1) := by
  constructor
  · intro h
    obtain ⟨front, rest, p, hs, hopens, hread⟩ := step_eq_ok_iff.mp h
    have mark {blanks mark : List Char} (gap : (Mode.content (depth + 1)).IsGap blanks)
        (hs : c :: s = blanks ++ '<' :: mark ++ rest) : False := by
      obtain rfl := gap.2 depth rfl
      exact hc (List.cons.inj hs).1
    cases hopens with
    | comment _ gap => exact (mark gap hs).elim
    | instruction _ gap => exact (mark gap hs).elim
    | startTag _ gap => exact (mark gap hs).elim
    | cdata => exact (mark (.nil _) hs).elim
    | endTag => exact (mark (.nil _) hs).elim
    | text depth hc rest =>
      rw [List.nil_append] at hs
      exact ⟨hs ▸ hread, rfl⟩
  · rintro ⟨hread, rfl⟩
    exact step_of_opens (.text depth hc s) hread

theorem holds_eq_false_of_infix {word a s : List Char} (ha : a <:+: s) (h : holds word s = false) :
    holds word a = false := by
  rw [Bool.eq_false_iff] at h ⊢
  exact fun hword => h (holds_iff.mpr ((holds_iff.mp hword).trans ha))

theorem exists_back_of_run {front s raw r : List Char} (hmark : '<' ∉ front)
    (h : run (fun s => s.head? == some '<') (front ++ s) = .ok (raw, r)) :
    ∃ back, raw = front ++ back ∧ s = back ++ r := by
  obtain ⟨hs, -, -, hstop⟩ := run_eq_ok_iff.mp h
  rcases List.append_eq_append_iff.mp hs with hback | ⟨more, rfl, rfl⟩
  · exact hback
  · cases more with
    | nil => exact ⟨[], by simp, by simp⟩
    | cons d more =>
      have hd : d = '<' := by simpa using (hstop d (more ++ s) rfl).2
      exact absurd (hd ▸ List.mem_append_right raw List.mem_cons_self) hmark

/-- A text that is cut after whole characters and references is read as two texts, or as one and
nothing. -/
theorem exists_texts_of_step {depth : Nat} {front s r : List Char} {ps : List Piece} {token : Token}
    {next : Mode} (hfront : front ≠ []) (hmark : '<' ∉ front) (hpieces : pieces front = .ok ps)
    (h : step (.content (depth + 1)) (front ++ s) = .ok (some (token, next), r)) :
    next = .content (depth + 1) ∧ (∃ content, token = .text content) ∧
      (∀ w, step (.content (depth + 1)) (front ++ '<' :: w) =
        .ok (some (.text (String.ofList (joinText ps)), .content (depth + 1)), '<' :: w)) ∧
      (s = r ∧ token = .text (String.ofList (joinText ps)) ∨
        ∃ content, step (.content (depth + 1)) s =
          .ok (some (.text content, .content (depth + 1)), r)) := by
  obtain ⟨c, front', hcons⟩ := List.exists_cons_of_ne_nil hfront
  have hc : c ≠ '<' := fun e => hmark (by simp [hcons, e])
  have hread : text (front ++ s) = .ok (token, r) ∧ next = .content (depth + 1) := by
    rw [hcons] at h ⊢
    exact (step_text_eq_ok_iff hc).mp h
  obtain ⟨raw, qs, hrun, hend, hqs, rfl⟩ := text_eq_ok_iff.mp hread.1
  obtain ⟨back, rfl, rfl⟩ := exists_back_of_run hmark hrun
  obtain ⟨-, allowed, going, hstop⟩ := run_eq_ok_iff.mp hrun
  have hall := List.forall_mem_append.mp allowed
  rw [pieces_append hpieces] at hqs
  have hfirst (w : List Char) : text (front ++ '<' :: w) =
      .ok (.text (String.ofList (joinText ps)), '<' :: w) := by
    refine text_eq_ok_iff.mpr
      ⟨front, ps, run_eq_ok_iff.mpr ⟨rfl, hall.1, fun a d b hab => ?_, fun d b hdb => ?_⟩,
      holds_eq_false_of_infix (List.prefix_append front back).isInfix hend, hpieces, rfl⟩
    · have hd : d ≠ '<' := fun e => hmark (by simp [hab, e])
      simp [hd]
    · cases hdb
      exact ⟨by decide, rfl⟩
  refine ⟨hread.2, ⟨_, rfl⟩, fun w => ?_, ?_⟩
  · have hfirst := hfirst w
    rw [hcons] at hfirst ⊢
    exact (step_text_eq_ok_iff hc).mpr ⟨hfirst, rfl⟩
  · cases hback : pieces back with
    | error f => rw [hback] at hqs; cases hqs
    | ok more =>
      rw [hback] at hqs
      cases hqs
      cases back with
      | nil =>
        rw [pieces_nil] at hback
        cases hback
        exact .inl ⟨rfl, by simp⟩
      | cons d back =>
        have hd : d ≠ '<' := by simpa using going front d back rfl
        refine .inr ⟨_, (step_text_eq_ok_iff hd).mpr ⟨text_eq_ok_iff.mpr ⟨d :: back, more, ?_,
          holds_eq_false_of_infix (List.suffix_append front (d :: back)).isInfix hend, hback, rfl⟩,
            rfl⟩⟩
        exact run_eq_ok_iff.mpr ⟨rfl, hall.2, fun a e b hab =>
          going (front ++ a) e b (by simp [hab]), hstop⟩

end Scan

end SchemaDoc.Xml
