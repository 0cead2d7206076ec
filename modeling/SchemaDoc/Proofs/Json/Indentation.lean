import Mathlib.Data.List.Basic
import SchemaDoc.CommandLine.Report
import SchemaDoc.Proofs.Json.Unambiguous

/-!
# Values in deeper places

Where a value stands inside of another one, its text is the one that it has on its own with each
line further in (`Json.text_add`). Nothing but the lines between brackets breaks a text into lines:
in strings line ends are escaped.
-/
namespace SchemaDoc

/-- A text with each of its lines behind a margin. -/
def indentLines (margin text : String) : String :=
  "\n".intercalate ((text.toList.splitOn '\n').map fun line => margin ++ String.ofList line)

namespace CommandFault

variable {margin text : String}

theorem toList_withMargin (margin text : String) : (withMargin margin text).toList =
    text.toList.flatMap fun c => if c = '\n' then '\n' :: margin.toList else [c] := by
  rw [withMargin, String.toList_ofList]

theorem withMargin_append (margin a b : String) :
    withMargin margin (a ++ b) = withMargin margin a ++ withMargin margin b := by
  rw [← String.toList_inj, String.toList_append]
  simp only [toList_withMargin, String.toList_append, List.flatMap_append]

theorem withMargin_of_not_mem (h : '\n' ∉ text.toList) : withMargin margin text = text := by
  have hkeep : ∀ c ∈ text.toList, (if c = '\n' then '\n' :: margin.toList else [c]) = [c] := by
    intro c hc
    rw [if_neg]
    rintro rfl
    exact h hc
  rw [← String.toList_inj, toList_withMargin, List.flatMap_congr hkeep, List.flatMap_singleton']

theorem withMargin_lineEnd (margin : String) : withMargin margin "\n" = "\n" ++ margin := by
  rw [← String.toList_inj, toList_withMargin, String.toList_append]
  simp

theorem intercalate_append_cons (sep a b : List Char) (l : List (List Char)) :
    sep.intercalate ((a ++ b) :: l) = a ++ sep.intercalate (b :: l) := by
  cases l <;> simp [List.intercalate_cons_cons]

theorem intercalate_splitOn_map_append (margin s : List Char) :
    ['\n'].intercalate ((s.splitOn '\n').map (margin ++ ·)) =
      margin ++ s.flatMap fun c => if c = '\n' then '\n' :: margin else [c] := by
  induction s with
  | nil => simp
  | cons c s ih =>
    obtain ⟨line, lines, hlines⟩ := List.exists_cons_of_ne_nil (List.splitOn_ne_nil '\n' s)
    rw [hlines, List.map_cons, intercalate_append_cons, List.append_cancel_left_eq] at ih
    rw [List.splitOn_cons_eq_if_modifyHead, hlines, List.flatMap_cons, ← ih]
    by_cases hc : c = '\n'
    · rw [hc, if_pos (by simp), List.map_cons, List.map_cons, List.intercalate_cons_cons,
        intercalate_append_cons]
      simp
    · rw [if_neg (by simpa using hc), List.modifyHead_cons, List.map_cons,
        intercalate_append_cons, if_neg hc]
      exact congrArg _ (intercalate_append_cons _ [c] line _)

theorem indentLines_eq (margin text : String) :
    indentLines margin text = margin ++ withMargin margin text := by
  rw [indentLines, ← String.toList_inj, String.toList_append, toList_withMargin,
    ← intercalate_splitOn_map_append, String.toList_intercalate, List.map_map]
  simp [Function.comp_def]

end CommandFault

namespace Json

open CommandFault

theorem not_mem_escapeChar (c : Char) : '\n' ∉ escapeChar c := by
  have hdigits : ∀ n < 0x20, '\n' ∉
      ['\\', 'u', '0', '0', Nat.digitChar (n / 16), Nat.digitChar (n % 16)] := by
    decide
  rw [escapeChar]
  split_ifs with hquote hback hb hf hn hr ht hcontrol
  any_goals decide
  · exact hdigits _ hcontrol
  · simpa using Ne.symm hn

theorem not_mem_quoted (s : String) : '\n' ∉ (quoted s).toList := by
  simp only [quoted, String.toList_ofList, List.mem_cons, List.mem_append, List.mem_flatMap, not_or,
    not_exists, not_and]
  exact ⟨⟨by decide, fun c _ => not_mem_escapeChar c⟩, by decide⟩

theorem not_mem_indent (level : Nat) : '\n' ∉ (indent level).toList := by
  rw [indent, String.toList_ofList]
  intro h
  cases List.eq_of_mem_replicate h

theorem indent_add (level k : Nat) : indent (level + k) = indent k ++ indent level := by
  rw [← String.toList_inj, String.toList_append]
  simp only [indent, String.toList_ofList, List.replicate_append_replicate]
  congr 1
  omega

theorem withMargin_intercalate (margin line : String) (lines : List String) :
    margin ++ withMargin margin (",\n".intercalate (line :: lines)) =
      ",\n".intercalate ((line :: lines).map fun line => margin ++ withMargin margin line) := by
  induction lines generalizing line with
  | nil => simp
  | cons next lines ih =>
    have hcomma : withMargin margin ",\n" = ",\n" ++ margin := by
      have hsplit : ",\n" = "," ++ "\n" := rfl
      rw [hsplit, withMargin_append, withMargin_lineEnd, withMargin_of_not_mem (by decide),
        String.append_assoc]
    have hnext := ih next
    rw [List.map_cons] at hnext
    rw [List.map_cons, List.map_cons, String.intercalate_cons_cons,
      String.intercalate_cons_cons, ← hnext, withMargin_append, withMargin_append, hcomma]
    simp only [String.append_assoc]

theorem withMargin_bracketed {opening closing : String} (hopening : '\n' ∉ opening.toList)
    (hclosing : '\n' ∉ closing.toList) (k level : Nat) (lines : List String) :
    withMargin (indent k) (bracketed opening closing level lines) =
      bracketed opening closing (level + k)
        (lines.map fun line => indent k ++ withMargin (indent k) line) := by
  cases lines with
  | nil =>
    refine withMargin_of_not_mem fun h => ?_
    rw [bracketed, List.isEmpty_nil, if_pos rfl, String.toList_append, List.mem_append] at h
    exact h.elim hopening hclosing
  | cons line lines =>
    have hlines := withMargin_intercalate (indent k) line lines
    simp only [bracketed, List.isEmpty_cons, List.map_cons, Bool.false_eq_true,
      if_false] at hlines ⊢
    rw [← hlines]
    simp only [withMargin_append, withMargin_lineEnd, withMargin_of_not_mem hopening,
      withMargin_of_not_mem hclosing, withMargin_of_not_mem (not_mem_indent level), indent_add,
      String.append_assoc]

/-- A value `k` levels deeper has the same text with its further lines behind a margin. -/
theorem text_add (k : Nat) (a : Json) (level : Nat) :
    text (level + k) a = withMargin (indent k) (text level a) := by
  induction a using induction generalizing level with
  | null =>
    have hword : '\n' ∉ "null".toList := by decide
    exact (withMargin_of_not_mem hword).symm
  | bool b =>
    have hword : '\n' ∉ (if b then "true" else "false").toList := by cases b <;> decide
    exact (withMargin_of_not_mem hword).symm
  | number n =>
    refine (withMargin_of_not_mem fun h => ?_).symm
    rw [text, Nat.toString_eq_repr, Nat.toList_repr] at h
    exact absurd (Nat.isDigit_of_mem_toDigits (by decide) (by decide) h) (by decide)
  | string s => exact (withMargin_of_not_mem (not_mem_quoted s)).symm
  | array items ih =>
    rw [text, text, withMargin_bracketed (by decide) (by decide), itemTexts_eq_map,
      itemTexts_eq_map, List.map_map]
    congr 1
    -- An item begins with its indentation, which has no line end, so the margin is left to the
    -- lines of its text.
    refine List.map_congr_left fun item hitem => ?_
    rw [Function.comp_apply, withMargin_append, withMargin_of_not_mem (not_mem_indent _),
      ← ih item hitem, ← String.append_assoc, ← indent_add, Nat.add_right_comm]
  | object members ih =>
    rw [text, text, withMargin_bracketed (by decide) (by decide), memberTexts_eq_map,
      memberTexts_eq_map, List.map_map]
    congr 1
    refine List.map_congr_left fun m hm => ?_
    rw [Function.comp_apply, withMargin_append, withMargin_append, withMargin_append, ← ih m hm,
      withMargin_of_not_mem (not_mem_indent _), withMargin_of_not_mem (not_mem_quoted _),
      withMargin_of_not_mem (by decide), Nat.add_right_comm, indent_add]
    simp only [String.append_assoc]

/-- A value on a line of its own is the value by itself, with all its lines further in. -/
theorem indent_append_text (k : Nat) (a : Json) :
    indent k ++ text k a = indentLines (indent k) a.pretty := by
  rw [indentLines_eq, pretty, ← text_add, Nat.zero_add]

end Json

end SchemaDoc
