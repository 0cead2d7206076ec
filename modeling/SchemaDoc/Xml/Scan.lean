import SchemaDoc.Text.Front
import SchemaDoc.Xml.Character
import SchemaDoc.Xml.Fault

/-!
# Reading from the front of a text

A `Scan` takes characters from the front of a text, or fails with a fault whose mark is a rest of
that text. What every scan leaves is a rest of what it was given (`Reads`), so that a reader built
from scans comes to an end.
-/
namespace SchemaDoc.Xml

open Text (strip? eq_append_of_strip?)

abbrev Scan := StateT (List Char) (Except (Fault Mark))

def beginsWith (word : String) (s : List Char) : Bool :=
  (strip? word.toList s).isSome

def holds (word : List Char) : List Char → Bool
  | [] => word.isEmpty
  | c :: r => word.isPrefixOf (c :: r) || holds word r

namespace Scan

def fail {α : Type} (cause : Cause) (place : Mark) : Scan α :=
  fun _ => .error ⟨cause, place⟩

def mark : Scan Mark :=
  fun s => .ok (s, s)

def spaces : Scan Unit :=
  fun s => .ok ((), s.dropWhile isSpace)

def char (c : Char) : Scan Unit
  | [] => .error ⟨.endOfText, []⟩
  | d :: r => if d = c then .ok ((), r) else .error ⟨.expectedChar c d, d :: r⟩

def word (word : String) : Scan Unit := fun s =>
  match strip? word.toList s with
  | some r => .ok ((), r)
  | none => .error ⟨.expectedText word, s⟩

/-- Takes allowed characters up to the first place where `stop` holds, or to the end. A forbidden
character on the way is a fault, also where `stop` would hold later. -/
def run (stop : List Char → Bool) : Scan (List Char)
  | [] => .ok ([], [])
  | c :: r =>
    if !isAllowed c then .error ⟨.forbiddenChar c, c :: r⟩
    else if stop (c :: r) then .ok ([], c :: r)
    else match run stop r with
      | .ok (taken, rest) => .ok (c :: taken, rest)
      | .error f => .error f

/-- Every success leaves a rest of the text. -/
def Reads {α : Type} (p : Scan α) : Prop :=
  ∀ {s : List Char} {a : α} {r : List Char}, p s = .ok (a, r) → r <:+ s

theorem reads_pure {α : Type} (a : α) : Reads (pure a : Scan α) := by
  intro s b r h
  cases h
  exact List.suffix_rfl

theorem reads_bind {α β : Type} {p : Scan α} {f : α → Scan β} (hp : Reads p)
    (hf : ∀ a, Reads (f a)) : Reads (p >>= f) := by
  intro s b r h
  simp only [bind, StateT.bind, Except.bind] at h
  split at h
  next => cases h
  next x hx => exact (hf x.1 h).trans (hp hx)

theorem reads_fail {α : Type} (cause : Cause) (place : Mark) :
    Reads (fail cause place : Scan α) := by
  intro s a r h
  cases h

theorem reads_mark : Reads mark := by
  intro s a r h
  cases h
  exact List.suffix_rfl

theorem reads_spaces : Reads spaces := by
  intro s a r h
  cases h
  exact List.dropWhile_suffix _

theorem reads_char (c : Char) : Reads (char c) := by
  intro s a r h
  unfold char at h
  split at h
  next => cases h
  next d t =>
    split at h <;> cases h
    exact List.suffix_cons _ _

theorem reads_word (w : String) : Reads (word w) := by
  intro s a r h
  unfold word at h
  split at h <;> cases h
  next hr => exact ⟨w.toList, (eq_append_of_strip? hr).symm⟩

theorem reads_run (stop : List Char → Bool) : Reads (run stop) := by
  intro s a r h
  fun_induction run stop s generalizing a r with
  | case1 => cases h; exact List.suffix_rfl
  | case2 => cases h
  | case3 => cases h; exact List.suffix_rfl
  | case4 c t _ _ taken rest hrest ih =>
    cases h
    exact (ih hrest).trans (List.suffix_cons _ _)
  | case5 => cases h

/-- Every success takes at least one character. -/
def Advances {α : Type} (p : Scan α) : Prop :=
  ∀ {s : List Char} {a : α} {r : List Char}, p s = .ok (a, r) → r.length < s.length

theorem advances_bind {α β : Type} {p : Scan α} {f : α → Scan β} (hp : Advances p)
    (hf : ∀ a, Reads (f a)) : Advances (p >>= f) := by
  intro s b r h
  simp only [bind, StateT.bind, Except.bind] at h
  split at h
  next => cases h
  next x hx => exact Nat.lt_of_le_of_lt (hf x.1 h).length_le (hp hx)

theorem advances_bind_of_reads {α β : Type} {p : Scan α} {f : α → Scan β} (hp : Reads p)
    (hf : ∀ a, Advances (f a)) : Advances (p >>= f) := by
  intro s b r h
  simp only [bind, StateT.bind, Except.bind] at h
  split at h
  next => cases h
  next x hx => exact Nat.lt_of_lt_of_le (hf x.1 h) (hp hx).length_le

theorem length_lt_of_run {stop : List Char → Bool} {c : Char} {s a r : List Char}
    (hc : stop (c :: s) = false) (h : run stop (c :: s) = .ok (a, r)) :
    r.length < (c :: s).length := by
  unfold run at h
  simp only [hc, Bool.false_eq_true, if_false] at h
  split at h
  next => cases h
  next =>
    split at h <;> cases h
    next hr => exact Nat.lt_succ_of_le (reads_run stop hr).length_le

theorem run_append {stop : List Char → Bool} {taken rest : List Char}
    (allowed : ∀ c ∈ taken, isAllowed c)
    (going : ∀ a c b, taken = a ++ c :: b → stop (c :: b ++ rest) = false) :
    run stop (taken ++ rest) = (run stop rest).map fun x => (taken ++ x.1, x.2) := by
  induction taken with
  | nil => cases h : run stop rest <;> simp [h, Except.map]
  | cons c t ih =>
    have hc := allowed c (by simp)
    have hs := going [] c t rfl
    have hr := ih (fun d hd => allowed d (by simp [hd])) fun a d b hab =>
        going (c :: a) d b (by simp [hab])
    rw [List.cons_append, run]
    simp only [List.cons_append] at hs
    simp only [hc, hs, hr, Bool.not_true, Bool.false_eq_true, if_false]
    cases run stop rest <;> rfl

end Scan

end SchemaDoc.Xml
