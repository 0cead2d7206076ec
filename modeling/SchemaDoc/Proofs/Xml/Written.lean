import SchemaDoc.Proofs.Xml.Opening
import SchemaDoc.Text.Decimal

/-!
# Written tags and texts

How the parts of an element are written, and that each is read as the token it was written for:
names without a colon, attributes in double quotes, and texts, in which the characters with a
meaning of their own, tabs and line ends are written by number. What follows a part is left open, so
that the lemmas can be put together.
-/
namespace SchemaDoc.Xml

/-- A name without a qualifier. -/
structure IsPlainName (name : String) : Prop where
  start : startsName name.toList
  parts : ∀ c ∈ name.toList, isNamePart c
  noColon : ':' ∉ name.toList

instance (name : String) : Decidable (IsPlainName name) :=
  decidable_of_iff (startsName name.toList ∧ name.toList.all isNamePart ∧ ':' ∉ name.toList)
    ⟨fun h => ⟨h.1, List.all_eq_true.mp h.2.1, h.2.2⟩,
      fun h => ⟨h.start, List.all_eq_true.mpr h.parts, h.noColon⟩⟩

/-- The characters that are written by number. -/
def isReferred (c : Char) : Bool :=
  ['&', '<', '>', '"', '\'', '\t', '\n', '\r'].contains c

def writeChar (c : Char) : List Char :=
  if isReferred c then '&' :: '#' :: (Nat.toDigits 10 c.toNat ++ [';']) else [c]

def writeText (s : String) : List Char :=
  s.toList.flatMap writeChar

def writeAttribute (a : String × String) : List Char :=
  ' ' :: (a.1.toList ++ '=' :: '"' :: (writeText a.2 ++ ['"']))

/-! ### Names -/

section

variable {name : String} (h : IsPlainName name)

include h

theorem IsPlainName.exists_cons : ∃ c rest, name.toList = c :: rest ∧ isNameStart c := by
  have hstart := h.start
  cases hn : name.toList with
  | nil => rw [hn] at hstart; cases hstart
  | cons c rest => exact ⟨c, rest, rfl, by rwa [hn] at hstart⟩

theorem Scan.qualifiedName_append {c : Char} {rest : List Char} (hc : ¬ isNamePart c) :
    qualifiedName (name.toList ++ c :: rest) = .ok (⟨"", name⟩, c :: rest) := by
  have htake : (name.toList ++ c :: rest).takeWhile isNamePart = name.toList := by
    rw [List.takeWhile_append_of_pos h.parts, List.takeWhile_cons_of_neg hc, List.append_nil]
  have hdrop : (name.toList ++ c :: rest).dropWhile isNamePart = c :: rest := by
    rw [List.dropWhile_append_of_pos h.parts, List.dropWhile_cons_of_neg hc]
  rw [qualifiedName, htake, hdrop, QName.ofChars?_of_no_colon h.noColon h.start,
    String.ofList_toList]

end

/-! ### Texts -/

/-- How a character of a written text is taken. -/
def pieceOf (c : Char) : Piece :=
  if isReferred c then .referenced c else .plain c

theorem isReferred_iff {c : Char} :
    isReferred c ↔ c = '&' ∨ c = '<' ∨ c = '>' ∨ c = '"' ∨ c = '\'' ∨ c = '\t' ∨ c = '\n' ∨
      c = '\r' := by
  simp [isReferred]

theorem reference_number {c : Char} (h : isReferred c) (rest : List Char) :
    reference ('#' :: (Nat.toDigits 10 c.toNat ++ ';' :: rest)) = .ok (c, rest) := by
  rcases isReferred_iff.mp h with rfl | rfl | rfl | rfl | rfl | rfl | rfl | rfl <;> rfl

theorem pieces_writeChar_append (c : Char) (rest : List Char) :
    pieces (writeChar c ++ rest) = (pieces rest).map (pieceOf c :: ·) := by
  rw [writeChar, pieceOf]
  split
  next h =>
    rw [List.cons_append, List.cons_append, List.append_assoc]
    exact pieces_reference (reference_number h rest)
  next h =>
    refine pieces_plain rest ?_
    rintro rfl
    exact h rfl

theorem pieces_writeText (s : String) : pieces (writeText s) = .ok (s.toList.map pieceOf) := by
  rw [writeText]
  induction s.toList with
  | nil => exact pieces_nil
  | cons c t ih =>
    rw [List.flatMap_cons, pieces_writeChar_append, ih]
    rfl

/-- No character that stands for itself is a carriage return, so that none is dropped or changed.
The character before is one only where it was referred to, and then the next one is added as it
is. -/
theorem joinTextFrom_pieceOf (afterReference : Bool) (read s : List Char)
    (h : afterReference = false → read.head? ≠ some '\r') :
    joinTextFrom afterReference read (s.map pieceOf) = read.reverse ++ s := by
  induction s generalizing afterReference read with
  | nil => simp [joinTextFrom]
  | cons c t ih =>
    rw [List.map_cons, pieceOf]
    split
    next hc =>
      rw [joinTextFrom, ih true _ (by simp)]
      simp
    next hc =>
      have hne : c ≠ '\r' := by
        rintro rfl
        exact hc rfl
      have hread : (c :: read).head? ≠ some '\r' := by simpa using hne
      rw [joinTextFrom]
      cases afterReference with
      | true =>
        rw [if_pos rfl, ih false _ fun _ => hread]
        simp
      | false =>
        have hpush : pushPlain c (t.map pieceOf).isEmpty read = c :: read := by
          have hhead := h rfl
          unfold pushPlain
          split
          next => simp at hhead
          next => simp [hne]
        rw [if_neg (by simp), hpush, ih false _ fun _ => hread]
        simp

theorem joinText_pieceOf (s : List Char) : joinText (s.map pieceOf) = s :=
  joinTextFrom_pieceOf false [] s (by simp)

theorem joinValue_pieceOf (s : List Char) : joinValue (s.map pieceOf) = s := by
  induction s with
  | nil => rfl
  | cons c t ih =>
    rw [List.map_cons, pieceOf]
    split
    next => rw [joinValue, ih]
    next hc =>
      have hplain : ¬ (c = '\t' ∨ c = '\n' ∨ c = '\r') := by
        rintro (rfl | rfl | rfl) <;> exact hc rfl
      have hreturn : ¬ c = '\r' := fun e => hplain (.inr (.inr e))
      rw [joinValue, if_neg fun e => hreturn e.1, if_neg hplain, ih]

theorem mem_writeChar {c d : Char} (h : d ∈ writeChar c) :
    d ∈ ['&', '#', ';'] ∨ d.isDigit ∨ d = c ∧ ¬ isReferred c := by
  rw [writeChar] at h
  split at h
  next =>
    simp only [List.mem_cons, List.mem_append, List.not_mem_nil, or_false] at h
    rcases h with rfl | rfl | h | rfl
    · exact .inl (by simp)
    · exact .inl (by simp)
    · exact .inr (.inl (Nat.isDigit_of_mem_toDigits (by decide) (by decide) h))
    · exact .inl (by simp)
  next hc => exact .inr (.inr ⟨by simpa using h, hc⟩)

theorem not_mem_writeText (s : String) {c : Char} (hc : c ∈ ['<', '>', '"']) : c ∉ writeText s := by
  intro h
  obtain ⟨d, -, hd⟩ := List.mem_flatMap.mp h
  simp only [List.mem_cons, List.not_mem_nil, or_false] at hc
  rcases mem_writeChar hd with hmark | hdigit | ⟨rfl, hplain⟩
  · rcases hc with rfl | rfl | rfl <;> simp at hmark
  · rcases hc with rfl | rfl | rfl <;> simp at hdigit
  · rcases hc with rfl | rfl | rfl <;> exact hplain rfl

theorem isAllowed_of_isDigit {c : Char} (h : c.isDigit) : isAllowed c := by
  obtain ⟨hlow, hhigh⟩ := Text.toNat_of_isDigit h
  rw [isAllowed, if_neg (by omega)]
  simp only [Bool.and_eq_true, bne_iff_ne]
  omega

theorem isAllowed_of_mem_writeText {s : String} (h : ∀ c ∈ s.toList, isAllowed c) :
    ∀ c ∈ writeText s, isAllowed c := by
  intro c hc
  obtain ⟨d, hd, hcd⟩ := List.mem_flatMap.mp hc
  rcases mem_writeChar hcd with hmark | hdigit | ⟨rfl, -⟩
  · simp only [List.mem_cons, List.not_mem_nil, or_false] at hmark
    rcases hmark with rfl | rfl | rfl <;> decide
  · exact isAllowed_of_isDigit hdigit
  · exact h c hd

theorem exists_cons_of_writeText {s : String} (h : s ≠ "") :
    ∃ c rest, writeText s = c :: rest ∧ c ≠ '<' := by
  have hmark : '<' ∉ writeText s := not_mem_writeText s (by simp)
  cases hs : s.toList with
  | nil => exact absurd (String.toList_eq_nil_iff.mp hs) h
  | cons c t =>
    cases hw : writeText s with
    | nil =>
      rw [writeText, hs, List.flatMap_cons, List.append_eq_nil_iff, writeChar] at hw
      split at hw <;> simp at hw
    | cons d rest => exact ⟨d, rest, rfl, by rintro rfl; exact hmark (by simp [hw])⟩

/-! ### Tokens -/

namespace Scan

theorem run_append_of_stop {stop : List Char → Bool} {taken rest : List Char} {c : Char}
    (allowed : ∀ d ∈ taken, isAllowed d) (going : ∀ d ∈ taken, ∀ t, stop (d :: t) = false)
    (hc : isAllowed c) (hstop : stop (c :: rest) = true) :
    run stop (taken ++ c :: rest) = .ok (taken, c :: rest) := by
  have hend : run stop (c :: rest) = .ok ([], c :: rest) := by
    rw [run, hc, hstop]
    rfl
  rw [run_append allowed fun a d b hab => going d (by simp [hab]) (b ++ c :: rest), hend]
  simp [Except.map]

theorem assignment_written {a : String × String} (hname : IsPlainName a.1)
    (hvalue : ∀ c ∈ a.2.toList, isAllowed c) (rest : List Char) :
    assignment (a.1.toList ++ '=' :: '"' :: (writeText a.2 ++ '"' :: rest)) =
      .ok (.assignment ⟨"", a.1⟩ a.2 (a.1.toList ++ '=' :: '"' :: (writeText a.2 ++ '"' :: rest)),
        rest) := by
  have hrun : run (fun s => s.head? == some '"' || s.head? == some '<')
    (writeText a.2 ++ '"' :: rest) = .ok (writeText a.2, '"' :: rest) := by
    refine run_append_of_stop (isAllowed_of_mem_writeText hvalue) ?_ (by decide) (by simp)
    intro d hd t
    have hquote : d ≠ '"' := fun e => not_mem_writeText a.2 (by simp) (e ▸ hd)
    have hmark : d ≠ '<' := fun e => not_mem_writeText a.2 (by simp) (e ▸ hd)
    simp [hquote, hmark]
  have hassigned : assigned (a.1.toList ++ '=' :: '"' :: (writeText a.2 ++ '"' :: rest)) =
      .ok ((⟨"", a.1⟩, writeText a.2, '"' :: rest), rest) := by
    rw [assigned, bind_of_ok (qualifiedName_append hname (by decide)), bind_of_ok rfl,
      bind_of_ok rfl, bind_of_ok rfl, bind_of_ok rfl, bind_of_ok hrun]
    rfl
  have hresolved : resolved joinValue (writeText a.2) ('"' :: rest) rest = .ok (a.2, rest) := by
    rw [resolved, pieces_writeText]
    simp [joinValue_pieceOf]
  rw [assignment, bind_of_ok rfl, bind_of_ok hassigned]
  exact bind_of_ok hresolved

theorem holds_of_not_mem {word s : List Char} {c : Char} (hword : c ∈ word) (hs : c ∉ s) :
    holds word s = false := by
  induction s with
  | nil =>
    cases word with
    | nil => cases hword
    | cons d word => rfl
  | cons d s ih =>
    rw [List.mem_cons, not_or] at hs
    rw [holds, ih hs.2, Bool.or_false, Bool.eq_false_iff]
    intro hfront
    exact List.not_mem_cons_of_ne_of_not_mem hs.1 hs.2
      ((List.isPrefixOf_iff_prefix.mp hfront).subset hword)

theorem text_written {t : String} (allowed : ∀ c ∈ t.toList, isAllowed c) (rest : List Char) :
    text (writeText t ++ '<' :: rest) = .ok (.text t, '<' :: rest) := by
  have hrun : run (fun s => s.head? == some '<') (writeText t ++ '<' :: rest) =
      .ok (writeText t, '<' :: rest) := by
    refine run_append_of_stop (isAllowed_of_mem_writeText allowed) ?_ (by decide) rfl
    intro d hd _
    have hmark : d ≠ '<' := fun e => not_mem_writeText t (by simp) (e ▸ hd)
    simp [hmark]
  have hholds : holds "]]>".toList (writeText t) = false :=
    holds_of_not_mem (c := '>') (by simp) (not_mem_writeText t (by simp))
  have hresolved : resolved joinText (writeText t) ('<' :: rest) ('<' :: rest) =
      .ok (t, '<' :: rest) := by
    rw [resolved, pieces_writeText]
    simp [joinText_pieceOf]
  rw [text, bind_of_ok hrun, bind_of_ok rfl, hholds, if_neg Bool.false_ne_true]
  exact bind_of_ok hresolved

theorem startTag_written {name : String} (h : IsPlainName name) {c : Char} (hc : ¬ isNamePart c)
    (rest : List Char) :
    startTag (name.toList ++ c :: rest) =
      .ok (.startTag ⟨"", name⟩ (name.toList ++ c :: rest), c :: rest) := by
  rw [startTag, bind_of_ok rfl]
  exact bind_of_ok (qualifiedName_append h hc)

theorem endTag_written {name : String} (h : IsPlainName name) (start : Mark) (rest : List Char) :
    endTag start (name.toList ++ '>' :: rest) = .ok (.endTag ⟨"", name⟩ start, rest) := by
  rw [endTag, bind_of_ok (qualifiedName_append h (by decide)), bind_of_ok rfl]
  rfl

/-! ### Steps -/

theorem step_startTag {mode next : Mode} (hnext : mode.entered? = some next) {name : String}
    (h : IsPlainName name) {c : Char} {rest : List Char} (hc : ¬ isNamePart c) :
    step mode ('<' :: (name.toList ++ c :: rest)) =
      .ok (some (.startTag ⟨"", name⟩ (name.toList ++ c :: rest), next), c :: rest) := by
  have hread := startTag_written h hc rest
  obtain ⟨d, word, hword, hd⟩ := h.exists_cons
  rw [hword, List.cons_append] at hread ⊢
  have hmark : d ≠ '!' ∧ d ≠ '?' ∧ d ≠ '/' := by
    refine ⟨?_, ?_, ?_⟩ <;> · rintro rfl; revert hd; decide
  have hopens : Opens mode ['<'] (d :: (word ++ c :: rest)) startTag next :=
    .startTag hnext (.nil mode) hmark _
  exact step_of_opens hopens hread

theorem step_text {t : String} (ht : t ≠ "") (allowed : ∀ c ∈ t.toList, isAllowed c) (depth : Nat)
    (rest : List Char) :
    step (.content (depth + 1)) (writeText t ++ '<' :: rest) =
      .ok (some (.text t, .content (depth + 1)), '<' :: rest) := by
  have hread := text_written allowed rest
  obtain ⟨c, front, hwritten, hc⟩ := exists_cons_of_writeText ht
  rw [hwritten, List.cons_append] at hread ⊢
  exact step_of_opens (.text depth hc _) hread

theorem step_endTag {name : String} (h : IsPlainName name) (depth : Nat) (rest : List Char) :
    step (.content (depth + 1)) ('<' :: '/' :: (name.toList ++ '>' :: rest)) =
      .ok (some (.endTag ⟨"", name⟩ ('<' :: '/' :: (name.toList ++ '>' :: rest)), .content depth),
        rest) :=
  step_of_opens (.endTag depth _) (endTag_written h _ rest)

theorem step_assignment {a : String × String} (hname : IsPlainName a.1)
    (hvalue : ∀ c ∈ a.2.toList, isAllowed c) (depth : Nat) (rest : List Char) :
    step (.tag depth) (writeAttribute a ++ rest) =
      .ok (some
        (.assignment ⟨"", a.1⟩ a.2 (a.1.toList ++ '=' :: '"' :: (writeText a.2 ++ '"' :: rest)),
        .tag depth), rest) := by
  have hread := assignment_written hname hvalue rest
  have hform : writeAttribute a ++ rest =
      [' '] ++ (a.1.toList ++ '=' :: '"' :: (writeText a.2 ++ '"' :: rest)) := by
    simp [writeAttribute]
  obtain ⟨d, word, hword, hd⟩ := hname.exists_cons
  rw [hform]
  rw [hword, List.cons_append] at hread ⊢
  have hmark : ¬ isSpace d ∧ d ≠ '/' ∧ d ≠ '>' := by
    refine ⟨fun h => ?_, ?_, ?_⟩
    · simp only [isSpace, Bool.or_eq_true, beq_iff_eq] at h
      rcases h with ((rfl | rfl) | rfl) | rfl <;> revert hd <;> decide
    · rintro rfl; revert hd; decide
    · rintro rfl; revert hd; decide
  have hopens : Opens (.tag depth) [' ']
    (d :: (word ++ '=' :: '"' :: (writeText a.2 ++ '"' :: rest))) assignment
      (.tag depth) := .assignment depth (List.forall_mem_singleton.mpr rfl) (by simp) hmark _
  exact step_of_opens hopens hread

theorem step_startTagEnd (depth : Nat) (rest : List Char) :
    step (.tag depth) ('>' :: rest) = .ok (some (.startTagEnd false, .content (depth + 1)), rest) :=
  rfl

end Scan

end SchemaDoc.Xml
