import Mathlib.Tactic.SplitIfs
import SchemaDoc.CommandLine.Run

/-!
# Quotations in a script

What a character of a script means depends on the place where it stands. `ScriptPlace.next?` says
how a dialect goes on from there, and a statement ends at a semicolon outside of quotations. A
script is split into the statements it was put together from exactly if each of them is whole: no
semicolon of it stands outside of quotations, and none of its quotations stays open
(`Dialect.splitScript?_script_iff`).
-/
namespace SchemaDoc

/-- Where a character of a script stands. -/
inductive ScriptPlace
  | outside
  | name
  | text
  /-- After a backslash in a string. -/
  | escape
  deriving DecidableEq, Repr

/-- The place after a character, or none where a statement ends. Only MySQL has strings. A mark that
is doubled inside of a quotation closes it and opens it again at once, so nothing between the two
stands outside. -/
def ScriptPlace.next? (d : Dialect) (p : ScriptPlace) (c : Char) : Option ScriptPlace :=
  match p with
  | .outside =>
    if c = ';' then none
    else if c = d.quoteMark then some .name
    else if c = '\'' ∧ d = .mysql then some .text
    else some .outside
  | .name => some (if c = d.quoteMark then .outside else .name)
  | .text => some (if c = '\'' then .outside else if c = '\\' then .escape else .text)
  | .escape => some .text

theorem ScriptPlace.next?_eq_none_iff {d : Dialect} {p : ScriptPlace} {c : Char} :
    p.next? d c = none ↔ p = .outside ∧ c = ';' := by
  cases p with
  | outside =>
    simp only [next?]
    split_ifs <;> simp_all
  | name => simp [next?]
  | text => simp [next?]
  | escape => simp [next?]

namespace Dialect

/-- The place after a text in which no statement ends. -/
def walk (d : Dialect) (p : ScriptPlace) (s : List Char) : Option ScriptPlace :=
  s.foldlM (ScriptPlace.next? d) p

@[simp] theorem walk_nil (d : Dialect) (p : ScriptPlace) : d.walk p [] = some p := rfl

theorem walk_cons (d : Dialect) (p : ScriptPlace) (c : Char) (s : List Char) :
    d.walk p (c :: s) = (p.next? d c).bind (d.walk · s) := rfl

theorem walk_append (d : Dialect) (p : ScriptPlace) (a b : List Char) :
    d.walk p (a ++ b) = (d.walk p a).bind (d.walk · b) :=
  List.foldlM_append

/-- A text that can stand in a script as a statement: no statement ends in it, and no quotation
stays open. -/
def IsWhole (d : Dialect) (s : String) : Prop :=
  d.walk .outside s.toList = some .outside

end Dialect

/-- A text cut up where statements end: the first piece, those after it, and the place at the
end. -/
structure Cut where
  first : List Char
  more : List (List Char)
  last : ScriptPlace
  deriving DecidableEq, Repr

def Dialect.cut (d : Dialect) : ScriptPlace → List Char → Cut
  | p, [] => ⟨[], [], p⟩
  | p, c :: s =>
    match p.next? d c with
    | some q => { d.cut q s with first := c :: (d.cut q s).first }
    | none => ⟨[], (d.cut .outside s).first :: (d.cut .outside s).more, (d.cut .outside s).last⟩

/-- A text without the line break in front of it. -/
def afterBreak : List Char → List Char
  | '\n' :: s => s
  | s => s

def gather (first : List Char) : List (List Char) → Option (List String)
  | [] => if first = [] then some [] else none
  | piece :: more => (gather (afterBreak piece) more).map (String.ofList first :: ·)

/-- The statements of a script, if all of its quotations are closed. -/
def Dialect.splitScript? (d : Dialect) (script : String) : Option (List String) :=
  let pieces := d.cut .outside script.toList
  if pieces.last = .outside then gather pieces.first pieces.more else none

namespace Dialect

theorem cut_append {d : Dialect} {p q : ScriptPlace} {s : List Char} (h : d.walk p s = some q)
    (rest : List Char) :
    d.cut p (s ++ rest) = { d.cut q rest with first := s ++ (d.cut q rest).first } := by
  induction s generalizing p with
  | nil =>
    cases h
    rfl
  | cons c s ih =>
    rw [walk_cons] at h
    cases hc : p.next? d c with
    | none => simp [hc] at h
    | some r =>
      rw [hc, Option.bind_some] at h
      simp [cut, hc, ih h]

theorem walk_first {d : Dialect} {p : ScriptPlace} {s : List Char} (h : (d.cut p s).more ≠ []) :
    d.walk p (d.cut p s).first = some .outside := by
  induction s generalizing p with
  | nil => simp [cut] at h
  | cons c s ih =>
    cases hc : p.next? d c with
    | none =>
      obtain ⟨rfl, -⟩ := ScriptPlace.next?_eq_none_iff.mp hc
      simp [cut, hc]
    | some q =>
      simp only [cut, hc] at h ⊢
      rw [walk_cons, hc, Option.bind_some, ih h]

theorem toList_script_cons (s : String) (l : List String) :
    (script (s :: l)).toList = s.toList ++ ';' :: '\n' :: (script l).toList := by
  simp [script]

theorem splitScript?_cons {d : Dialect} {s : String} (h : d.IsWhole s) (l : List String) :
    d.splitScript? (script (s :: l)) = (d.splitScript? (script l)).map (s :: ·) := by
  have hsemicolon : ScriptPlace.next? d .outside ';' = none := rfl
  have hbreak : ScriptPlace.next? d .outside '\n' = some .outside := by cases d <;> rfl
  have hend : d.cut .outside (s.toList ++ ';' :: '\n' :: (script l).toList) =
      ⟨s.toList, ('\n' :: (d.cut .outside (script l).toList).first) ::
        (d.cut .outside (script l).toList).more, (d.cut .outside (script l).toList).last⟩ := by
    rw [cut_append h]
    simp [cut, hsemicolon, hbreak]
  simp only [splitScript?, toList_script_cons, hend, gather, afterBreak, String.ofList_toList]
  split_ifs <;> rfl

theorem isWhole_of_splitScript? {d : Dialect} {s text : String} {l : List String}
    (h : d.splitScript? text = some (s :: l)) : d.IsWhole s := by
  simp only [splitScript?] at h
  split_ifs at h
  cases hmore : (d.cut .outside text.toList).more with
  | nil =>
    rw [hmore, gather] at h
    split_ifs at h
    simp at h
  | cons piece more =>
    rw [hmore, gather, Option.map_eq_some_iff] at h
    obtain ⟨_, -, h⟩ := h
    rw [List.cons.injEq] at h
    have hfirst : d.walk .outside (d.cut .outside text.toList).first = some .outside :=
      walk_first (by simp [hmore])
    rw [IsWhole, ← h.1, String.toList_ofList, hfirst]

/-- A script falls apart into the statements it was made of exactly if each of them is whole. -/
theorem splitScript?_script_iff {d : Dialect} {l : List String} :
    d.splitScript? (script l) = some l ↔ ∀ s ∈ l, d.IsWhole s := by
  induction l with
  | nil => simp [splitScript?, script, cut, gather]
  | cons s l ih =>
    rw [List.forall_mem_cons]
    constructor
    · intro h
      have hs := isWhole_of_splitScript? h
      refine ⟨hs, ih.mp ?_⟩
      simpa [splitScript?_cons hs] using h
    · rintro ⟨hs, hl⟩
      rw [splitScript?_cons hs, ih.mpr hl, Option.map_some]

/-- A text that is whole, and that does not lead out of a quotation if its reading begins inside of
one. -/
structure IsSettled (d : Dialect) (s : String) : Prop where
  whole : d.IsWhole s
  inside : ∀ p ≠ .outside, d.walk p s.toList ≠ some .outside

theorem isWhole_append_iff {d : Dialect} {a b : String} (ha : d.IsWhole a) :
    d.IsWhole (a ++ b) ↔ d.IsWhole b := by
  rw [IsWhole, String.toList_append, walk_append, ha]
  rfl

theorem IsWhole.append {d : Dialect} {a b : String} (ha : d.IsWhole a) (hb : d.IsWhole b) :
    d.IsWhole (a ++ b) :=
  (isWhole_append_iff ha).mpr hb

theorem IsSettled.append {d : Dialect} {a b : String} (ha : d.IsSettled a) (hb : d.IsSettled b) :
    d.IsSettled (a ++ b) := by
  refine ⟨ha.whole.append hb.whole, fun p hp h => ?_⟩
  rw [String.toList_append, walk_append, Option.bind_eq_some_iff] at h
  obtain ⟨q, hq, h⟩ := h
  exact hb.inside q (fun hout => ha.inside p hp (hout ▸ hq)) h

/-- A settled text cannot make up for one in front of it that is not whole. -/
theorem isWhole_append_iff_of_isSettled {d : Dialect} {a b : String} (hb : d.IsSettled b) :
    d.IsWhole (a ++ b) ↔ d.IsWhole a := by
  refine ⟨fun h => ?_, fun ha => ha.append hb.whole⟩
  rw [IsWhole, String.toList_append, walk_append, Option.bind_eq_some_iff] at h
  obtain ⟨q, hq, h⟩ := h
  by_cases hout : q = .outside
  · rw [IsWhole, hq, hout]
  · exact absurd h (hb.inside q hout)

theorem isWhole_empty (d : Dialect) : d.IsWhole "" := rfl

theorem isWhole_intercalate {d : Dialect} {separator : String} (hs : d.IsWhole separator)
    {l : List String} (hl : ∀ s ∈ l, d.IsWhole s) : d.IsWhole (separator.intercalate l) := by
  induction l with
  | nil => exact d.isWhole_empty
  | cons s l ih =>
    rw [List.forall_mem_cons] at hl
    cases l with
    | nil => simpa using hl.1
    | cons t l =>
      rw [String.intercalate_cons_cons]
      exact (hl.1.append hs).append (ih hl.2)

end Dialect

/-- The characters that mean something in some place. -/
def lexicalMarks : List Char := [';', '"', '\x60', '\'', '\\']

def isPlain (s : String) : Bool :=
  s.toList.all fun c => !lexicalMarks.contains c

namespace Dialect

theorem next?_of_plain {c : Char} (h : lexicalMarks.contains c = false) (d : Dialect)
    (p : ScriptPlace) : p.next? d c = some (if p = .escape then .text else p) := by
  rw [lexicalMarks] at h
  have hmark : c ≠ d.quoteMark := by
    rintro rfl
    cases d <;> simp [quoteMark] at h
  have hc : c ≠ ';' ∧ c ≠ '\'' ∧ c ≠ '\\' := by
    simp only [List.contains_cons, Bool.or_eq_false_iff, beq_eq_false_iff_ne] at h
    exact ⟨h.1, h.2.2.2.1, h.2.2.2.2.1⟩
  cases p <;> simp [ScriptPlace.next?, hmark, hc]

theorem isSettled_of_plain (d : Dialect) {s : String} (h : isPlain s) : d.IsSettled s := by
  rw [isPlain, List.all_eq_true] at h
  constructor
  · rw [IsWhole]
    generalize s.toList = l at h ⊢
    induction l with
    | nil => rfl
    | cons c l ih =>
      rw [List.forall_mem_cons, Bool.not_eq_true'] at h
      rw [walk_cons, next?_of_plain h.1]
      exact ih h.2
  · intro p hp
    generalize s.toList = l at h ⊢
    induction l generalizing p with
    | nil => simpa using hp
    | cons c l ih =>
      rw [List.forall_mem_cons, Bool.not_eq_true'] at h
      rw [walk_cons, next?_of_plain h.1, Option.bind_some]
      apply ih _ _ h.2
      split_ifs
      · simp
      · exact hp

theorem next?_quoteMark (d : Dialect) (p : ScriptPlace) :
    p.next? d d.quoteMark = some (match p with
      | .outside => .name
      | .name => .outside
      | .text => .text
      | .escape => .text) := by
  cases d <;> cases p <;> rfl

theorem walk_doubled_name (d : Dialect) (s : List Char) :
    d.walk .name (doubled d.quoteMark s) = some .name := by
  induction s with
  | nil => rfl
  | cons c s ih =>
    by_cases hc : c = d.quoteMark
    · simp [doubled, hc, walk_cons, next?_quoteMark, ih]
    · simp [doubled, hc, walk_cons, ScriptPlace.next?, ih]

theorem toList_quote (d : Dialect) (s : String) :
    (d.quote s).toList = d.quoteMark :: (doubled d.quoteMark s.toList ++ [d.quoteMark]) := by
  simp [quote, enquote]

theorem walk_doubled_ne_name (d : Dialect) (s : List Char) :
    ∀ p ≠ .name, d.walk p (doubled d.quoteMark s) ≠ some .name := by
  induction s with
  | nil => simp [doubled]
  | cons c s ih =>
    intro p hp
    by_cases hc : c = d.quoteMark
    · cases p with
      | name => exact absurd rfl hp
      | outside => simpa [doubled, hc, walk_cons, next?_quoteMark] using ih .outside (by simp)
      | text => simpa [doubled, hc, walk_cons, next?_quoteMark] using ih .text (by simp)
      | escape => simpa [doubled, hc, walk_cons, next?_quoteMark] using ih .text (by simp)
    · rw [doubled, if_neg hc, walk_cons]
      cases hn : p.next? d c with
      | none => simp
      | some q =>
        rw [Option.bind_some]
        apply ih
        rintro rfl
        cases p <;> simp [ScriptPlace.next?, hc] at hn hp <;> grind

/-- A quoted name is whole. Read from inside of a quotation it is inside out: its marks close and
open. -/
theorem isSettled_quote (d : Dialect) (s : String) : d.IsSettled (d.quote s) := by
  constructor
  · rw [IsWhole, toList_quote, walk_cons, next?_quoteMark, Option.bind_some, walk_append,
      walk_doubled_name, Option.bind_some, walk_cons, next?_quoteMark]
    rfl
  · intro p hp h
    rw [toList_quote, walk_cons, next?_quoteMark, Option.bind_some, walk_append,
      Option.bind_eq_some_iff] at h
    obtain ⟨q, hq, h⟩ := h
    have hne : q ≠ .name := by
      rintro rfl
      revert hq
      apply walk_doubled_ne_name
      cases p <;> simp at hp ⊢
    rw [walk_cons, next?_quoteMark] at h
    cases q <;> simp at h hne

theorem walk_doubled_text (s : List Char) :
    mysql.walk .text (doubled '\'' (doubled '\\' s)) = some .text := by
  induction s with
  | nil => rfl
  | cons c s ih =>
    by_cases hb : c = '\\'
    · simp [doubled, hb, walk_cons, ScriptPlace.next?, ih]
    · by_cases hq : c = '\''
      · simp [doubled, hq, walk_cons, ScriptPlace.next?, ih, quoteMark]
      · simp [doubled, hb, hq, walk_cons, ScriptPlace.next?, ih]

theorem isWhole_stringLiteral (s : String) : mysql.IsWhole (stringLiteral s) := by
  rw [IsWhole, stringLiteral, String.toList_ofList, List.cons_append, walk_cons]
  change (mysql.walk .text (doubled '\'' (doubled '\\' s.toList) ++ ['\''])) = _
  rw [walk_append, walk_doubled_text]
  rfl

end Dialect

end SchemaDoc
