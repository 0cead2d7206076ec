import Mathlib.Data.List.Chain
import SchemaDoc.Proofs.Sql.Quotation

/-!
# Reading a statement

A statement is read as a list of symbols: characters outside of quotations, and whole quotations
with the text that they hold. What has been spelled from symbols is read back as the same symbols,
provided that no character among them opens a quotation and no two quotations touch
(`Dialect.symbols_spelled_append`). The same holds from the end of a text to its front, since
doubled marks look alike from both sides (`Dialect.symbolsFromEnd_append_spelled`).
-/
namespace SchemaDoc

/-- What is read at once: a character outside of quotations, or a quotation with its mark and what
it holds. -/
inductive Symbol
  | char (c : Char)
  | quoted (mark : Char) (s : List Char)
  deriving DecidableEq, Repr

/-- Each character of `pairs` written twice, and all others once. -/
def doubling (pairs s : List Char) : List Char :=
  s.flatMap fun c => if c ∈ pairs then [c, c] else [c]

theorem doubling_cons_of_mem {pairs : List Char} {c : Char} (h : c ∈ pairs) (s : List Char) :
    doubling pairs (c :: s) = c :: c :: doubling pairs s := by
  simp [doubling, h]

theorem doubling_cons_of_not_mem {pairs : List Char} {c : Char} (h : c ∉ pairs) (s : List Char) :
    doubling pairs (c :: s) = c :: doubling pairs s := by
  simp [doubling, h]

theorem doubled_eq_doubling (mark : Char) (s : List Char) : doubled mark s = doubling [mark] s := by
  induction s with
  | nil => rfl
  | cons c s ih => by_cases h : c = mark <;> simpa [doubled, doubling, h] using ih

theorem doubled_doubled_eq_doubling (s : List Char) :
    doubled '\'' (doubled '\\' s) = doubling ['\'', '\\'] s := by
  induction s with
  | nil => rfl
  | cons c s ih =>
    by_cases hb : c = '\\'
    · simpa [doubled, doubling, hb] using ih
    · by_cases hq : c = '\'' <;> simpa [doubled, doubling, hb, hq] using ih

theorem doubling_reverse (pairs s : List Char) :
    doubling pairs s.reverse = (doubling pairs s).reverse := by
  rw [doubling, List.flatMap_reverse, doubling]
  congr 2
  funext c
  by_cases h : c ∈ pairs <;> simp [h]

/-- What a quotation holds whose opening mark has been read, and what follows its closing mark. A
character of `pairs` stands for itself if it is doubled; alone it closes the quotation or means
nothing. -/
def closeQuotation? (mark : Char) (pairs : List Char) : List Char → Option (List Char × List Char)
  | [] => none
  | c :: s =>
    if c ∈ pairs then
      match s with
      | [] => if c = mark then some ([], []) else none
      | d :: rest =>
        if d = c then (closeQuotation? mark pairs rest).map fun r => (c :: r.1, r.2)
        else if c = mark then some ([], d :: rest) else none
    else (closeQuotation? mark pairs s).map fun r => (c :: r.1, r.2)

theorem eq_of_closeQuotation? {mark : Char} {pairs s held rest : List Char}
    (h : closeQuotation? mark pairs s = some (held, rest)) :
    s = doubling pairs held ++ mark :: rest := by
  fun_induction closeQuotation? mark pairs s generalizing held with
  | case1 => cases h
  | case2 =>
    cases h
    rfl
  | case3 => cases h
  | case4 c rest' hc ih =>
    obtain ⟨r, hr, hrest⟩ := Option.map_eq_some_iff.mp h
    cases hrest
    rw [doubling_cons_of_mem hc, ih hr]
    rfl
  | case5 =>
    cases h
    rfl
  | case6 => cases h
  | case7 c s hc ih =>
    obtain ⟨r, hr, hrest⟩ := Option.map_eq_some_iff.mp h
    cases hrest
    rw [doubling_cons_of_not_mem hc, ih hr]
    rfl

theorem length_lt_of_closeQuotation? {mark : Char} {pairs s held rest : List Char}
    (h : closeQuotation? mark pairs s = some (held, rest)) : rest.length < s.length := by
  rw [eq_of_closeQuotation? h, List.length_append, List.length_cons]
  omega

theorem closeQuotation?_of_not_mem {mark c : Char} {pairs : List Char} (h : c ∉ pairs)
    (s : List Char) :
    closeQuotation? mark pairs (c :: s) = (closeQuotation? mark pairs s).map fun r =>
      (c :: r.1, r.2) := by
  rw [closeQuotation?.eq_def]
  exact if_neg h

theorem closeQuotation?_doubling {mark : Char} {pairs : List Char} (hmark : mark ∈ pairs)
    (s : List Char) {rest : List Char} (hrest : rest.head? ≠ some mark) :
    closeQuotation? mark pairs (doubling pairs s ++ mark :: rest) = some (s, rest) := by
  induction s with
  | nil =>
    cases rest with
    | nil => simp [doubling, closeQuotation?, hmark]
    | cons c rest =>
      have hne : c ≠ mark := by simpa using hrest
      simp [doubling, closeQuotation?, hmark, hne]
  | cons c s ih =>
    by_cases hc : c ∈ pairs
    · simp [doubling_cons_of_mem hc, closeQuotation?, hc, ih]
    · rw [doubling_cons_of_not_mem hc, List.cons_append, closeQuotation?_of_not_mem hc, ih,
        Option.map_some]

namespace Dialect

/-- The characters that are doubled inside of a quotation that `mark` opens. -/
def pairs? (d : Dialect) (mark : Char) : Option (List Char) :=
  if mark = d.quoteMark then some [mark]
  else if mark = '\'' ∧ d = .mysql then some ['\'', '\\']
  else none

theorem pairs?_quoteMark (d : Dialect) : d.pairs? d.quoteMark = some [d.quoteMark] :=
  if_pos rfl

theorem mem_of_pairs? {d : Dialect} {mark : Char} {pairs : List Char}
    (h : d.pairs? mark = some pairs) : mark ∈ pairs := by
  rw [pairs?] at h
  split_ifs at h with hname htext
  · cases h
    exact List.mem_singleton_self mark
  · cases h
    simp [htext.1]

theorem pairs?_of_plain {c : Char} (h : lexicalMarks.contains c = false) (d : Dialect) :
    d.pairs? c = none := by
  rw [lexicalMarks] at h
  have hmark : c ≠ d.quoteMark := by
    rintro rfl
    cases d <;> simp [quoteMark] at h
  have htext : c ≠ '\'' := by
    rintro rfl
    simp at h
  simp [pairs?, hmark, htext]

/-- Reads a text from its front. A mark whose quotation stays open is read as a character. -/
def symbols (d : Dialect) : List Char → List Symbol
  | [] => []
  | c :: s =>
    match _h : (d.pairs? c).bind (closeQuotation? c · s) with
    | some (held, rest) => .quoted c held :: symbols d rest
    | none => .char c :: symbols d s
termination_by s => s.length
decreasing_by
  · obtain ⟨pairs, -, hclose⟩ := Option.bind_eq_some_iff.mp _h
    have := length_lt_of_closeQuotation? hclose
    simp only [List.length_cons]
    omega
  · simp

end Dialect

namespace Symbol

def isQuoted : Symbol → Bool
  | char _ => false
  | quoted _ _ => true

/-- Whether a symbol is read for what it is: a character that opens no quotation, or a quotation
with a mark that opens one. -/
def isKnown (d : Dialect) : Symbol → Bool
  | char c => (d.pairs? c).isNone
  | quoted mark _ => (d.pairs? mark).isSome

def spell (d : Dialect) : Symbol → List Char
  | char c => [c]
  | quoted mark s => mark :: doubling ((d.pairs? mark).getD []) s ++ [mark]

/-- A symbol as it looks from the end of a text. -/
def mirror : Symbol → Symbol
  | char c => char c
  | quoted mark s => quoted mark s.reverse

def name (d : Dialect) (s : String) : Symbol :=
  quoted d.quoteMark s.toList

theorem mirror_mirror (x : Symbol) : x.mirror.mirror = x := by
  cases x <;> simp [mirror]

theorem isQuoted_mirror (x : Symbol) : x.mirror.isQuoted = x.isQuoted := by
  cases x <;> rfl

theorem isKnown_mirror (d : Dialect) (x : Symbol) : x.mirror.isKnown d = x.isKnown d := by
  cases x <;> rfl

theorem spell_mirror (d : Dialect) (x : Symbol) : x.mirror.spell d = (x.spell d).reverse := by
  cases x with
  | char c => rfl
  | quoted mark s => simp [mirror, spell, doubling_reverse]

theorem spell_name (d : Dialect) (s : String) : (name d s).spell d = (d.quote s).toList := by
  rw [name, spell, d.pairs?_quoteMark, Option.getD_some, d.toList_quote, doubled_eq_doubling]
  rfl

end Symbol

namespace Dialect

def spelled (d : Dialect) (l : List Symbol) : List Char :=
  l.flatMap (·.spell d)

theorem spelled_append (d : Dialect) (l m : List Symbol) :
    d.spelled (l ++ m) = d.spelled l ++ d.spelled m :=
  List.flatMap_append

theorem spelled_mirror (d : Dialect) (l : List Symbol) :
    d.spelled (l.reverse.map Symbol.mirror) = (d.spelled l).reverse := by
  rw [spelled, List.flatMap_map, List.flatMap_reverse, spelled]
  congr 2
  funext x
  simp [Symbol.spell_mirror]

/-- Symbols that can be read from their spelling: all are known, and no two quotations touch. -/
structure IsLegible (d : Dialect) (l : List Symbol) : Prop where
  known : ∀ x ∈ l, x.isKnown d
  apart : l.IsChain fun x y => (x.isQuoted && y.isQuoted) = false

end Dialect

def BeginsPlain (l : List Symbol) : Prop :=
  ∀ x ∈ l.head?, x.isQuoted = false

def EndsPlain (l : List Symbol) : Prop :=
  ∀ x ∈ l.getLast?, x.isQuoted = false

theorem endsPlain_of_cons {x : Symbol} {l : List Symbol} (h : EndsPlain (x :: l)) :
    EndsPlain l := by
  cases l with
  | nil => simp [EndsPlain]
  | cons y l => simpa [EndsPlain, List.getLast?_cons_cons] using h

theorem endsPlain_append {l m : List Symbol} (hl : EndsPlain l) (hm : EndsPlain m) :
    EndsPlain (l ++ m) := by
  rw [EndsPlain, List.getLast?_append]
  cases h : m.getLast? with
  | none => simpa [EndsPlain] using hl
  | some x => simpa [EndsPlain, h] using hm

theorem endsPlain_mirror {l : List Symbol} (h : BeginsPlain l) :
    EndsPlain (l.reverse.map Symbol.mirror) := by
  rw [EndsPlain, List.getLast?_map, List.getLast?_reverse]
  intro x hx
  obtain ⟨y, hy, rfl⟩ := Option.map_eq_some_iff.mp hx
  rw [Symbol.isQuoted_mirror, h y hy]

namespace Dialect

theorem IsLegible.append {d : Dialect} {l m : List Symbol} (hl : d.IsLegible l) (hm : d.IsLegible m)
    (h : EndsPlain l ∨ BeginsPlain m) : d.IsLegible (l ++ m) where
  known := List.forall_mem_append.mpr ⟨hl.known, hm.known⟩
  apart := by
    refine List.isChain_append.mpr ⟨hl.apart, hm.apart, fun x hx y hy => ?_⟩
    rcases h with hends | hbegins
    · rw [hends x hx, Bool.false_and]
    · rw [hbegins y hy, Bool.and_false]

theorem IsLegible.mirror {d : Dialect} {l : List Symbol} (h : d.IsLegible l) :
    d.IsLegible (l.reverse.map Symbol.mirror) where
  known := by
    intro x hx
    obtain ⟨y, hy, rfl⟩ := List.mem_map.mp hx
    rw [Symbol.isKnown_mirror, h.known y (List.mem_reverse.mp hy)]
  apart := by
    rw [List.isChain_map, List.isChain_reverse]
    refine h.apart.imp fun x y hxy => ?_
    rw [Symbol.isQuoted_mirror, Symbol.isQuoted_mirror, Bool.and_comm, hxy]

end Dialect

namespace Dialect

theorem symbols_of_char {d : Dialect} {c : Char} (h : d.pairs? c = none) (s : List Char) :
    d.symbols (c :: s) = .char c :: d.symbols s := by
  rw [symbols]
  split
  next hclose => simp [h] at hclose
  next => rfl

theorem symbols_of_quotation {d : Dialect} {mark : Char} {pairs : List Char}
    (h : d.pairs? mark = some pairs) (s : List Char) {rest : List Char}
    (hrest : rest.head? ≠ some mark) :
    d.symbols (mark :: (doubling pairs s ++ mark :: rest)) = .quoted mark s :: d.symbols rest := by
  have hclose := closeQuotation?_doubling (mem_of_pairs? h) s hrest
  rw [symbols]
  split
  next held rest' heq =>
    rw [h, Option.bind_some, hclose] at heq
    cases heq
    rfl
  next heq => simp [h, hclose] at heq

theorem spelled_symbols (d : Dialect) (s : List Char) : d.spelled (d.symbols s) = s := by
  fun_induction symbols d s with
  | case1 => rfl
  | case2 c s held rest h ih =>
    obtain ⟨pairs, hpairs, hclose⟩ := Option.bind_eq_some_iff.mp h
    have hspell : d.spelled (.quoted c held :: d.symbols rest) =
        c :: (doubling pairs held ++ c :: d.spelled (d.symbols rest)) := by
      simp [spelled, Symbol.spell, hpairs]
    rw [hspell, ih, ← eq_of_closeQuotation? hclose]
  | case3 c s _ ih =>
    have hspell : d.spelled (.char c :: d.symbols s) = c :: d.spelled (d.symbols s) := rfl
    rw [hspell, ih]

/-- Spelled symbols are read back, whatever follows them, unless a quotation might go on there. -/
theorem symbols_spelled_append {d : Dialect} {l : List Symbol} (hl : d.IsLegible l)
    {rest : List Char} (hrest : rest = [] ∨ EndsPlain l) :
    d.symbols (d.spelled l ++ rest) = l ++ d.symbols rest := by
  induction l with
  | nil => rfl
  | cons x l ih =>
    obtain ⟨hknown, hrestKnown⟩ := List.forall_mem_cons.mp hl.known
    obtain ⟨htouch, hapart⟩ := List.isChain_cons.mp hl.apart
    have ih := ih ⟨hrestKnown, hapart⟩ (hrest.imp_right endsPlain_of_cons)
    cases x with
    | char c =>
      have hspell : d.spelled (.char c :: l) ++ rest = c :: (d.spelled l ++ rest) := rfl
      rw [hspell, symbols_of_char (Option.isNone_iff_eq_none.mp hknown), ih, List.cons_append]
    | quoted mark s =>
      obtain ⟨pairs, hpairs⟩ := Option.isSome_iff_exists.mp hknown
      have hhead : (d.spelled l ++ rest).head? ≠ some mark := by
        cases l with
        | nil =>
          rcases hrest with rfl | hplain
          · simp [spelled]
          · simp [EndsPlain, Symbol.isQuoted] at hplain
        | cons y l =>
          cases y with
          | char c =>
            have hc := hrestKnown (.char c) List.mem_cons_self
            rintro hmark
            have hcm : c = mark := by simpa [spelled, Symbol.spell] using hmark
            simp [Symbol.isKnown, hcm, hpairs] at hc
          | quoted mark' s' => simp [Symbol.isQuoted] at htouch
      have hspell : d.spelled (.quoted mark s :: l) ++ rest =
          mark :: (doubling pairs s ++ mark :: (d.spelled l ++ rest)) := by
        simp [spelled, Symbol.spell, hpairs]
      rw [hspell, symbols_of_quotation hpairs s hhead, ih, List.cons_append]

theorem symbols_spelled {d : Dialect} {l : List Symbol} (hl : d.IsLegible l) :
    d.symbols (d.spelled l) = l := by
  simpa [symbols] using symbols_spelled_append hl (.inl rfl : ([] : List Char) = [] ∨ _)

/-- Reads a text from its end. -/
def symbolsFromEnd (d : Dialect) (s : List Char) : List Symbol :=
  ((d.symbols s.reverse).map Symbol.mirror).reverse

theorem symbolsFromEnd_append_spelled {d : Dialect} {l : List Symbol} (hl : d.IsLegible l)
    (hplain : BeginsPlain l) (before : List Char) :
    d.symbolsFromEnd (before ++ d.spelled l) = d.symbolsFromEnd before ++ l := by
  have hmirror : Symbol.mirror ∘ Symbol.mirror = id := funext Symbol.mirror_mirror
  rw [symbolsFromEnd, List.reverse_append, ← spelled_mirror,
    symbols_spelled_append hl.mirror (.inr (endsPlain_mirror hplain)), List.map_append,
    List.reverse_append, List.map_map, hmirror, List.map_id, List.reverse_reverse,
    symbolsFromEnd]

end Dialect

end SchemaDoc
