import Mathlib.Data.List.TakeWhile
import Mathlib.Tactic.Ring
import SchemaDoc.Proofs.Schema.Image
import SchemaDoc.Proofs.Schema.Loading

/-!
# How lengths are written

The length of a column is written in ASCII digits, with at most one plus sign in front of them and
blanks around, and its decimal value fits into 32 bits (`Column.IsLengthText`). A column is read
with exactly the lengths that are written so, and any other text for a length is a fault that shows
the text as it stands (`Column.ofElement_reads_length`).
-/
namespace SchemaDoc

namespace Text

/-- The number that digits stand for. Each of them counts ten times as much as the one behind it. -/
def decimalValue : List Char → Nat
  | [] => 0
  | c :: digits => (c.toNat - '0'.toNat) * 10 ^ digits.length + decimalValue digits

/-- Reading digits one after another from `n` on shifts `n` by as many places as there are
digits. -/
theorem ofDigitChars_eq_decimalValue (digits : List Char) (n : Nat) :
    Nat.ofDigitChars 10 digits n = n * 10 ^ digits.length + decimalValue digits := by
  induction digits generalizing n with
  | nil => simp [decimalValue]
  | cons c digits ih =>
    rw [Nat.ofDigitChars_cons, ih, decimalValue, List.length_cons]
    ring

theorem isDigit_iff {c : Char} : c.isDigit ↔ '0' ≤ c ∧ c ≤ '9' := by
  simp [Char.isDigit, Char.le_def, UInt32.le_iff_toNat_le]

theorem exists_blanks_around_trimChars (s : List Char) :
    ∃ before behind, s = before ++ trimChars s ++ behind ∧ (∀ c ∈ before, isBlank c) ∧
      ∀ c ∈ behind, isBlank c := by
  refine ⟨s.takeWhile isBlank, ((s.dropWhile isBlank).reverse.takeWhile isBlank).reverse, ?_, ?_,
    ?_⟩
  · have hend : s.dropWhile isBlank =
        trimChars s ++ ((s.dropWhile isBlank).reverse.takeWhile isBlank).reverse := by
      rw [trimChars, ← List.reverse_append, List.takeWhile_append_dropWhile, List.reverse_reverse]
    rw [List.append_assoc, ← hend, List.takeWhile_append_dropWhile]
  · exact fun c hc => List.mem_takeWhile_imp hc
  · exact fun c hc => List.mem_takeWhile_imp (List.mem_reverse.mp hc)

theorem dropWhile_isBlank_append {blanks s : List Char} (hblanks : ∀ c ∈ blanks, isBlank c)
    (hs : ∀ c ∈ s.head?, ¬ isBlank c) : (blanks ++ s).dropWhile isBlank = s := by
  rw [List.dropWhile_append_of_pos hblanks]
  cases s with
  | nil => rfl
  | cons c s => exact List.dropWhile_cons_of_neg (hs c rfl)

theorem trimChars_append_blanks {before s behind : List Char} (hbefore : ∀ c ∈ before, isBlank c)
    (hbehind : ∀ c ∈ behind, isBlank c) (hs : ∀ c ∈ s, ¬ isBlank c) (hne : s ≠ []) :
    trimChars (before ++ s ++ behind) = s := by
  have hfirst : ∀ c ∈ (s ++ behind).head?, ¬ isBlank c := by
    intro c hc
    rw [List.head?_append_of_ne_nil _ hne] at hc
    exact hs c (List.mem_of_head? hc)
  have hlast : ∀ c ∈ s.reverse.head?, ¬ isBlank c :=
    fun c hc => hs c (List.mem_reverse.mp (List.mem_of_head? hc))
  rw [trimChars, List.append_assoc, dropWhile_isBlank_append hbefore hfirst, List.reverse_append,
    dropWhile_isBlank_append (by simpa using hbehind) hlast, List.reverse_reverse]

end Text

namespace Column

def IsLengthText (raw : String) (n : Nat) : Prop :=
  ∃ before sign digits behind, raw.toList = before ++ (sign ++ digits) ++ behind ∧
    (∀ c ∈ before, Text.isBlank c) ∧ (∀ c ∈ behind, Text.isBlank c) ∧ (sign = [] ∨ sign = ['+']) ∧
    digits ≠ [] ∧ (∀ c ∈ digits, '0' ≤ c ∧ c ≤ '9') ∧ n = Text.decimalValue digits ∧ n ≤ 4294967295

theorem not_isBlank_of_mem_sign_append {sign digits : List Char} (hsign : sign = [] ∨ sign = ['+'])
    (hdigits : ∀ c ∈ digits, c.isDigit) : ∀ c ∈ sign ++ digits, ¬ Text.isBlank c := by
  have hplus : ¬ Text.isBlank '+' := by decide
  have hrest : ∀ c ∈ digits, ¬ Text.isBlank c := fun c hc =>
      Text.not_isBlank_of_isDigit (hdigits c hc)
  rcases hsign with rfl | rfl
  · exact hrest
  · exact List.forall_mem_cons.mpr ⟨hplus, hrest⟩

theorem isCount_trimChars_iff {raw : String} {n : Nat} :
    Text.IsCount lengthBound (Text.trimChars raw.toList) n ↔ IsLengthText raw n := by
  constructor
  · rintro ⟨sign, digits, htrim, hsign, hne, hdigits, hvalue, hlt⟩
    obtain ⟨before, behind, hraw, hbefore, hbehind⟩ :=
      Text.exists_blanks_around_trimChars raw.toList
    rw [htrim] at hraw
    rw [Text.ofDigitChars_eq_decimalValue, Nat.zero_mul, Nat.zero_add] at hvalue
    exact ⟨before, sign, digits, behind, hraw, hbefore, hbehind, hsign, hne,
      fun c hc => Text.isDigit_iff.mp (hdigits c hc), hvalue, Nat.le_of_lt_succ hlt⟩
  · rintro ⟨before, sign, digits, behind, hraw, hbefore, hbehind, hsign, hne, hdigits, hvalue, hle⟩
    have hall : ∀ c ∈ digits, c.isDigit := fun c hc => Text.isDigit_iff.mpr (hdigits c hc)
    have htrim : Text.trimChars raw.toList = sign ++ digits := by
      rw [hraw]
      exact Text.trimChars_append_blanks hbefore hbehind (not_isBlank_of_mem_sign_append hsign hall)
        (List.append_ne_nil_of_right_ne_nil _ hne)
    refine ⟨sign, digits, htrim, hsign, hne, hall, ?_, Nat.lt_succ_of_le hle⟩
    rw [Text.ofDigitChars_eq_decimalValue, Nat.zero_mul, Nat.zero_add, hvalue]

theorem tellsLength_iff {raw? : Option String} {n : Nat} :
    TellsLength raw? n ↔ raw? = none ∧ n = 0 ∨ ∃ raw, raw? = some raw ∧ IsLengthText raw n := by
  constructor
  · intro h
    cases h with
    | absent => exact .inl ⟨rfl, rfl⟩
    | counted h => exact .inr ⟨_, rfl, isCount_trimChars_iff.mp h⟩
  · rintro (⟨rfl, rfl⟩ | ⟨raw, rfl, h⟩)
    · exact .absent
    · exact .counted (isCount_trimChars_iff.mpr h)

theorem lengthFault?_eq_some_iff {e : Element} {fault : LoadFault} :
    lengthFault? e = some fault ↔ ∃ raw, e.attribute? "length" = some raw ∧
      (∀ n, ¬ IsLengthText raw n) ∧
      fault = .malformedAttribute "column" "length" raw := by
  have hnone : ∀ raw : String, Text.readCount? lengthBound (Text.trimChars raw.toList) = none ↔
      ∀ n, ¬ IsLengthText raw n := by
    intro raw
    simp only [Option.eq_none_iff_forall_ne_some, ne_eq, Text.readCount?_eq_some_iff,
      isCount_trimChars_iff]
  rw [lengthFault?]
  cases e.attribute? "length" with
  | none => simp [lengthOf?]
  | some raw =>
    rw [Option.ite_none_right_eq_some, lengthOf?, Option.isNone_iff_eq_none, hnone,
      Option.getD_some, Option.some.injEq]
    constructor
    · rintro ⟨hraw, rfl⟩
      exact ⟨raw, rfl, hraw, rfl⟩
    · rintro ⟨_, heq, hraw, rfl⟩
      cases heq
      exact ⟨hraw, rfl⟩

/-- A column with a name and a type has the length that is written for it, and 0 where none is. It
is read unless a text stands for its length that is not written so, and is then refused with this
text. -/
theorem ofElement_reads_length {e : Element} {name typeName : String}
    (hname : e.attribute? "name" = some name) (htype : e.attribute? "type" = some typeName) :
    (∀ n, (∃ c, ofElement e = .ok c ∧ c.length = n) ↔
        e.attribute? "length" = none ∧ n = 0 ∨ ∃ raw, e.attribute? "length" = some raw ∧
          IsLengthText raw n) ∧
      ∀ fault, ofElement e = .error fault ↔
        ∃ raw, e.attribute? "length" = some raw ∧ (∀ n, ¬ IsLengthText raw n) ∧
          fault = .malformedAttribute "column" "length" raw := by
  constructor
  · intro n
    rw [← tellsLength_iff]
    constructor
    · rintro ⟨c, hc, rfl⟩
      exact (ofElement_eq_ok_iff.mp hc).length
    · intro hn
      refine ⟨⟨name, typeName, n, .ofElement e, e.attribute? "autoincrement" == some "true"⟩, ?_,
        rfl⟩
      exact ofElement_eq_ok_iff.mpr ⟨hname, htype, hn, Key.ofElement_eq_iff.mp rfl, beq_iff_eq⟩
  · intro fault
    have hfault : fault? e = lengthFault? e := by
      rw [fault?, Element.missing?_eq_none_iff.mpr ⟨name, hname⟩,
        Element.missing?_eq_none_iff.mpr ⟨typeName, htype⟩]
      rfl
    rw [← faultOf_eq_some_iff, ofElement_eq_failOr, faultOf_failOr, hfault,
      lengthFault?_eq_some_iff]

/-- A column whose length is written as `raw`. -/
def columnOfLength (raw : String) : Element where
  tag := "column"
  attributes := [("name", "c"), ("length", raw), ("type", "varchar")]

theorem ofElement_reads_length_limits :
    (∃ c, ofElement (columnOfLength "\u00a0+0004294967295\t") = .ok c ∧ c.length = 4294967295) ∧
      ofElement (columnOfLength " 4294967296") =
        .error (.malformedAttribute "column" "length" " 4294967296") ∧
      ofElement (columnOfLength "+") = .error (.malformedAttribute "column" "length" "+") := by
  have hname : ∀ raw, (columnOfLength raw).attribute? "name" = some "c" := fun _ => rfl
  have htype : ∀ raw, (columnOfLength raw).attribute? "type" = some "varchar" := fun _ => rfl
  have hrefused : ∀ raw, Text.readCount? lengthBound (Text.trimChars raw.toList) = none →
      ofElement (columnOfLength raw) = .error (.malformedAttribute "column" "length" raw) := by
    intro raw hraw
    refine ((ofElement_reads_length (hname raw) (htype raw)).2 _).mpr ⟨raw, rfl, ?_, rfl⟩
    intro n hn
    rw [← isCount_trimChars_iff, ← Text.readCount?_eq_some_iff, hraw] at hn
    cases hn
  refine ⟨?_, hrefused _ (by decide), hrefused _ (by decide)⟩
  refine ((ofElement_reads_length (hname _) (htype _)).1 _).mpr (.inr ⟨_, rfl, ?_⟩)
  exact isCount_trimChars_iff.mp (Text.readCount?_eq_some_iff.mp (by decide))

end Column

end SchemaDoc
