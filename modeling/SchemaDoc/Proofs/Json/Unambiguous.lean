import Mathlib.Tactic.SplitIfs
import SchemaDoc.Json.Value

/-!
# One text, one value

The indented text of a value shows where the value ends: nothing that may stand after it can be
taken for a part of it (`Json.isTold_text`). Strings end at the first quote that is not escaped,
lists and objects at a bracket on a line of its own level, and a number where the digits end, which
is why only texts that do not go on with a digit may follow. So no two values have the same text
(`Json.pretty_inj`).
-/
namespace SchemaDoc.Json

/-- A text that does not go on with a digit. -/
def EndsNumber (rest : List Char) : Prop :=
  ∀ c ∈ rest.head?, ¬ c.isDigit

@[simp] theorem endsNumber_nil : EndsNumber [] := by
  simp [EndsNumber]

@[simp] theorem endsNumber_cons {c : Char} {rest : List Char} :
    EndsNumber (c :: rest) ↔ ¬ c.isDigit := by
  simp [EndsNumber]

/-- The written form of `a` tells `a`: a text that begins with it begins with no other form, and
what follows the form is known as well. -/
def IsTold {α : Type} (write : α → String) (a : α) : Prop :=
  ∀ b r s, EndsNumber r → EndsNumber s → (write a).toList ++ r = (write b).toList ++ s →
    a = b ∧ r = s

/-! ### Strings -/

/-- The character that an escape after a backslash stands for, apart from those written by
number. -/
def escaped (c : Char) : Char :=
  if c = 'b' then '\x08'
  else if c = 'f' then '\x0c'
  else if c = 'n' then '\n'
  else if c = 'r' then '\r'
  else if c = 't' then '\t'
  else c

def hexDigitValue (c : Char) : Nat :=
  if c.isDigit then c.toNat - 0x30 else c.toNat - 0x57

/-- Reads one character of a string. -/
def unescape? : List Char → Option (Char × List Char)
  | [] => none
  | '\\' :: 'u' :: '0' :: '0' :: high :: low :: rest =>
    some (Char.ofNat (hexDigitValue high * 16 + hexDigitValue low), rest)
  | '\\' :: c :: rest => some (escaped c, rest)
  | c :: rest => some (c, rest)

theorem ofNat_hexDigits {n : Nat} (h : n < 0x20) :
    Char.ofNat
      (hexDigitValue (Nat.digitChar (n / 16)) * 16 + hexDigitValue (Nat.digitChar (n % 16))) =
      Char.ofNat n := by
  revert n
  decide

theorem unescape?_escapeChar (c : Char) (rest : List Char) :
    unescape? (escapeChar c ++ rest) = some (c, rest) := by
  rw [escapeChar]
  split_ifs with hquote hback hb hf hn hr ht hcontrol
  · subst hquote; rfl
  · subst hback; rfl
  · subst hb; rfl
  · subst hf; rfl
  · subst hn; rfl
  · subst hr; rfl
  · subst ht; rfl
  · have hchar := ofNat_hexDigits hcontrol
    rw [Char.ofNat_toNat] at hchar
    exact congrArg (fun d => some (d, rest)) hchar
  · rw [List.singleton_append]
    unfold unescape?
    split <;> simp_all

theorem escapeChar_ne_quote (c : Char) (r s : List Char) : escapeChar c ++ r ≠ '"' :: s := by
  intro h
  rw [escapeChar] at h
  split_ifs at h with hquote <;> simp_all

theorem eq_of_escaped_append {s t r u : List Char}
    (h : s.flatMap escapeChar ++ '"' :: r = t.flatMap escapeChar ++ '"' :: u) : s = t ∧ r = u := by
  induction s generalizing t with
  | nil =>
    cases t with
    | nil => simpa using h
    | cons d t =>
      rw [List.flatMap_cons, List.append_assoc] at h
      exact absurd h.symm (escapeChar_ne_quote d _ _)
  | cons c s ih =>
    cases t with
    | nil =>
      rw [List.flatMap_cons, List.append_assoc] at h
      exact absurd h (escapeChar_ne_quote c _ _)
    | cons d t =>
      rw [List.flatMap_cons, List.flatMap_cons, List.append_assoc, List.append_assoc] at h
      have hread := congrArg unescape? h
      rw [unescape?_escapeChar, unescape?_escapeChar] at hread
      simp only [Option.some.injEq, Prod.mk.injEq] at hread
      obtain ⟨rfl, hrest⟩ := hread
      obtain ⟨rfl, rfl⟩ := ih hrest
      exact ⟨rfl, rfl⟩

theorem eq_of_quoted_append {s t : String} {r u : List Char}
    (h : (quoted s).toList ++ r = (quoted t).toList ++ u) : s = t ∧ r = u := by
  simp only [quoted, String.toList_ofList, List.cons_append, List.append_assoc, List.nil_append,
    List.cons.injEq, true_and] at h
  obtain ⟨hst, hru⟩ := eq_of_escaped_append h
  exact ⟨String.toList_inj.mp hst, hru⟩

/-! ### Numbers -/

theorem takeWhile_digits_append (n : Nat) {rest : List Char} (h : EndsNumber rest) :
    ((Nat.toDigits 10 n) ++ rest).takeWhile Char.isDigit = Nat.toDigits 10 n := by
  have hdigits : ∀ c ∈ Nat.toDigits 10 n, c.isDigit := fun c hc =>
    Nat.isDigit_of_mem_toDigits (by decide) (by decide) hc
  have hrest : rest.takeWhile Char.isDigit = [] := by
    cases rest with
    | nil => rfl
    | cons c rest => exact List.takeWhile_cons_of_neg (endsNumber_cons.mp h)
  rw [List.takeWhile_append_of_pos hdigits, hrest, List.append_nil]

theorem isTold_number (n : Nat) : IsTold (fun n : Nat => toString n) n := by
  intro m r s hr hs h
  simp only [Nat.toString_eq_repr, Nat.toList_repr] at h
  have hdigits := congrArg (List.takeWhile Char.isDigit) h
  rw [takeWhile_digits_append n hr, takeWhile_digits_append m hs] at hdigits
  have hnm : n = m := by
    rw [← @Nat.ofDigitChars_ten_toDigits n, hdigits, Nat.ofDigitChars_ten_toDigits]
  subst hnm
  exact ⟨rfl, List.append_cancel_left h⟩

/-! ### Lists and objects -/

/-- What follows the first of some lines, up to the line of the closing bracket. -/
def furtherLines (lines : List String) : List Char :=
  lines.flatMap fun line => ',' :: '\n' :: line.toList

theorem toList_intercalate_cons (line : String) (lines : List String) :
    (",\n".intercalate (line :: lines)).toList = line.toList ++ furtherLines lines := by
  induction lines generalizing line with
  | nil => simp [furtherLines]
  | cons next lines ih =>
    rw [String.intercalate_cons_cons, String.toList_append, String.toList_append, ih,
      furtherLines, furtherLines, List.flatMap_cons]
    simp

theorem toList_bracketed_cons (opening closing : String) (level : Nat) (line : String)
    (lines : List String) :
    (bracketed opening closing level (line :: lines)).toList =
      opening.toList ++ '\n' :: (line.toList ++ (furtherLines lines ++
        '\n' :: ((indent level).toList ++ closing.toList))) := by
  rw [bracketed, if_neg (by simp)]
  simp only [String.toList_append, toList_intercalate_cons, List.append_assoc]
  rfl

section

variable {α : Type} {write : α → String}

theorem IsTold.prepend (before : String) {a : α} (h : IsTold write a) :
    IsTold (fun a => before ++ write a) a := by
  intro b r s hr hs hab
  simp only [String.toList_append, List.append_assoc] at hab
  exact h b r s hr hs (List.append_cancel_left hab)

theorem endsNumber_furtherLines (lines : List String) (rest : List Char) :
    EndsNumber (furtherLines lines ++ '\n' :: rest) := by
  cases lines <;> simp [furtherLines]

theorem eq_of_furtherLines_append {l m : List α} (told : ∀ a ∈ l, IsTold write a) {r s : List Char}
    (h : furtherLines (l.map write) ++ '\n' :: r = furtherLines (m.map write) ++ '\n' :: s) :
    l = m ∧ r = s := by
  induction l generalizing m with
  | nil =>
    cases m with
    | nil => simpa [furtherLines] using h
    | cons b m => simp [furtherLines] at h
  | cons a l ih =>
    cases m with
    | nil => simp [furtherLines] at h
    | cons b m =>
      have hline : (write a).toList ++ (furtherLines (l.map write) ++ '\n' :: r) =
          (write b).toList ++ (furtherLines (m.map write) ++ '\n' :: s) := by
        simpa [furtherLines] using h
      rw [List.forall_mem_cons] at told
      obtain ⟨rfl, hrest⟩ :=
        told.1 b _ _ (endsNumber_furtherLines _ _) (endsNumber_furtherLines _ _) hline
      obtain ⟨rfl, rfl⟩ := ih told.2 hrest
      exact ⟨rfl, rfl⟩

/-- The closing bracket tells an empty list from the line break after an opening one. -/
theorem isTold_bracketed {opening closing : String} {c : Char} (hclosing : closing.toList = [c])
    (hc : c ≠ '\n') (level : Nat) {l : List α} (told : ∀ a ∈ l, IsTold write a) :
    IsTold (fun l : List α => bracketed opening closing level (l.map write)) l := by
  intro m r s _ _ h
  cases l with
  | nil =>
    cases m with
    | nil => exact ⟨rfl, List.append_cancel_left h⟩
    | cons b m =>
      simp only [List.map_cons, toList_bracketed_cons, List.append_assoc] at h
      simp [bracketed, hclosing, hc] at h
  | cons a l =>
    cases m with
    | nil =>
      simp only [List.map_cons, toList_bracketed_cons, List.append_assoc] at h
      simp [bracketed, hclosing, Ne.symm hc] at h
    | cons b m =>
      simp only [List.map_cons, toList_bracketed_cons, List.append_assoc,
        List.append_cancel_left_eq, List.cons_append, List.cons.injEq, true_and] at h
      rw [List.forall_mem_cons] at told
      obtain ⟨rfl, hrest⟩ :=
        told.1 b _ _ (endsNumber_furtherLines _ _) (endsNumber_furtherLines _ _) h
      obtain ⟨rfl, hend⟩ := eq_of_furtherLines_append told.2 hrest
      exact ⟨rfl, by simpa using hend⟩

end

/-! ### Values -/

/-- The first character of a text, with one character for all digits and one for the first letters
of `true` and `false`. -/
def firstMark : List Char → Option Char
  | [] => none
  | c :: _ => some (if c.isDigit then '0' else if c = 't' ∨ c = 'f' then 'b' else c)

/-- What the text of a value of this kind begins with. -/
def openingMark : Json → Char
  | null => 'n'
  | bool _ => 'b'
  | number _ => '0'
  | string _ => '"'
  | array _ => '['
  | object _ => '\x7b'

theorem firstMark_toDigits_append (n : Nat) (rest : List Char) :
    firstMark (Nat.toDigits 10 n ++ rest) = some '0' := by
  cases hn : Nat.toDigits 10 n with
  | nil => exact absurd hn Nat.toDigits_ne_nil
  | cons c digits =>
    have hc : c.isDigit :=
      Nat.isDigit_of_mem_toDigits (by decide) (by decide) (hn ▸ List.mem_cons_self)
    rw [List.cons_append, firstMark, if_pos hc]

theorem firstMark_bracketed_append (opening closing : String) (level : Nat) (lines : List String)
    (rest : List Char) :
    firstMark ((bracketed opening closing level lines).toList ++ rest) =
      firstMark (opening.toList ++ ((bracketed "" closing level lines).toList ++ rest)) := by
  cases lines <;> simp [bracketed]

theorem firstMark_text_append (level : Nat) (a : Json) (rest : List Char) :
    firstMark ((text level a).toList ++ rest) = some a.openingMark := by
  cases a with
  | null => simp [text, firstMark, openingMark]
  | bool b => cases b <;> simp [text, firstMark, openingMark]
  | number n =>
    rw [text, Nat.toString_eq_repr, Nat.toList_repr, firstMark_toDigits_append, openingMark]
  | string s => simp [text, quoted, firstMark, openingMark]
  | array items =>
    rw [text, firstMark_bracketed_append]
    rfl
  | object members =>
    rw [text, firstMark_bracketed_append]
    rfl

theorem openingMark_eq_of_append {level : Nat} {a b : Json} {r s : List Char}
    (h : (text level a).toList ++ r = (text level b).toList ++ s) :
    a.openingMark = b.openingMark := by
  have hfirst := congrArg firstMark h
  rw [firstMark_text_append, firstMark_text_append] at hfirst
  exact Option.some.inj hfirst

/-- Induction on a value, with the claim at hand for all items of a list and all members of an
object. -/
@[elab_as_elim]
theorem induction {motive : Json → Prop} (null : motive null) (bool : ∀ b, motive (bool b))
    (number : ∀ n, motive (number n)) (string : ∀ s, motive (string s))
    (array : ∀ items, (∀ item ∈ items, motive item) → motive (array items))
    (object : ∀ members, (∀ m ∈ members, motive m.2) → motive (object members)) (a : Json) :
    motive a :=
  Json.rec (motive_2 := fun items => ∀ item ∈ items, motive item)
    (motive_3 := fun members => ∀ m ∈ members, motive m.2) (motive_4 := fun m => motive m.2)
    null bool number string array object (by simp) (fun _ _ hitem hitems =>
      List.forall_mem_cons.mpr ⟨hitem, hitems⟩)
    (by simp) (fun _ _ hm hms => List.forall_mem_cons.mpr ⟨hm, hms⟩) (fun _ _ hvalue => hvalue) a

theorem isTold_member {level : Nat} {m : String × Json} (told : IsTold (text level) m.2) :
    IsTold (fun m : String × Json => indent level ++ quoted m.1 ++ ": " ++ text level m.2) m := by
  intro m' r s hr hs h
  simp only [String.toList_append, List.append_assoc, List.append_cancel_left_eq] at h
  obtain ⟨hkey, hvalue⟩ := eq_of_quoted_append h
  obtain ⟨hm, hrest⟩ := told m'.2 r s hr hs (List.append_cancel_left hvalue)
  exact ⟨Prod.ext hkey hm, hrest⟩

/-- Where two texts begin with the forms of two values, they begin with the same value. The values
are of one kind, since their forms begin alike. -/
theorem isTold_text (level : Nat) (a : Json) : IsTold (text level) a := by
  induction a using induction generalizing level with
  | null =>
    intro b r s _ _ h
    cases b with
    | null => exact ⟨rfl, List.append_cancel_left h⟩
    | _ => exact absurd (openingMark_eq_of_append h) (by simp [openingMark])
  | bool x =>
    intro b r s _ _ h
    cases b with
    | bool y => cases x <;> cases y <;> simp_all [text]
    | _ => exact absurd (openingMark_eq_of_append h) (by simp [openingMark])
  | number n =>
    intro b r s hr hs h
    cases b with
    | number m =>
      simp only [text] at h
      obtain ⟨rfl, hrest⟩ := isTold_number n m r s hr hs h
      exact ⟨rfl, hrest⟩
    | _ => exact absurd (openingMark_eq_of_append h) (by simp [openingMark])
  | string x =>
    intro b r s _ _ h
    cases b with
    | string y =>
      simp only [text] at h
      obtain ⟨rfl, hrest⟩ := eq_of_quoted_append h
      exact ⟨rfl, hrest⟩
    | _ => exact absurd (openingMark_eq_of_append h) (by simp [openingMark])
  | array items ih =>
    intro b r s hr hs h
    cases b with
    | array items' =>
      have told :
          ∀ item ∈ items, IsTold (fun item => indent (level + 1) ++ text (level + 1) item) item :=
        fun item hitem => (ih item hitem (level + 1)).prepend _
      simp only [text, itemTexts_eq_map] at h
      obtain ⟨rfl, hrest⟩ :=
        isTold_bracketed (c := ']') rfl (by decide) level told items' r s hr hs h
      exact ⟨rfl, hrest⟩
    | _ => exact absurd (openingMark_eq_of_append h) (by simp [openingMark])
  | object members ih =>
    intro b r s hr hs h
    cases b with
    | object members' =>
      have told : ∀ m ∈ members, IsTold
          (fun m : String × Json => indent (level + 1) ++ quoted m.1 ++ ": " ++
              text (level + 1) m.2) m :=
        fun m hm => isTold_member (ih m hm (level + 1))
      simp only [text, memberTexts_eq_map] at h
      obtain ⟨rfl, hrest⟩ :=
        isTold_bracketed (c := '\x7d') rfl (by decide) level told members' r s hr hs h
      exact ⟨rfl, hrest⟩
    | _ => exact absurd (openingMark_eq_of_append h) (by simp [openingMark])

theorem pretty_inj {a b : Json} : a.pretty = b.pretty ↔ a = b := by
  constructor
  · intro h
    have htext : (text 0 a).toList ++ [] = (text 0 b).toList ++ [] :=
      congrArg (fun s : String => s.toList ++ []) h
    exact (isTold_text 0 a b [] [] endsNumber_nil endsNumber_nil htext).1
  · rintro rfl
    rfl

end SchemaDoc.Json
