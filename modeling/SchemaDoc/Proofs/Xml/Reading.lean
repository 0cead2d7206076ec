import Mathlib.Logic.Relation
import SchemaDoc.Xml.Tree

/-!
# Reading step by step

A document is read in steps, each of which takes one token from the text and puts it into the tree
(`Reading.Step`). A text has a root element exactly if the steps lead from its start to a place
where it may end, with the root element closed (`Node.parse_eq_ok_iff`). So a statement about whole
documents is one about single steps.
-/
namespace SchemaDoc.Xml

namespace Builder

variable (f g : List (Child Node) → List (Child Node)) (b : Builder)

@[simp] theorem tag?_onChildren : (b.onChildren f).tag? = b.tag? := by
  rw [onChildren]
  split <;> rfl

@[simp] theorem scope_onChildren : (b.onChildren f).scope = b.scope := by
  obtain ⟨_, _ | _, _⟩ := b <;> rfl

@[simp] theorem onChildren_onChildren : (b.onChildren f).onChildren g = b.onChildren (g ∘ f) := by
  obtain ⟨_, _ | _, _⟩ := b <;> rfl

theorem onChildren_id : b.onChildren id = b := by
  obtain ⟨_, _ | _, _⟩ := b <;> rfl

end Builder

/-- How far a document has been read. -/
structure Reading where
  builder : Builder
  mode : Mode
  rest : List Char

namespace Reading

/-- One token is read and taken in. -/
inductive Step : Reading → Reading → Prop
  | token {b b' : Builder} {mode next : Mode} {s rest : List Char} {token : Token}
      (read : Scan.step mode s = .ok (some (token, next), rest)) (built : b.push token = .ok b') :
      Step ⟨b, mode, s⟩ ⟨b', next, rest⟩

abbrev Steps : Reading → Reading → Prop :=
  Relation.ReflTransGen Step

/-- The text may end here, and the tree is whole. -/
structure Ends (r : Reading) (root : Node) : Prop where
  stop : ∃ rest, Scan.step r.mode r.rest = .ok (none, rest)
  finish : r.builder.finish = .ok root

def complete (r : Reading) : Except (Fault Mark) Node := do
  let scanned := scanFrom r.mode r.rest
  let b ← scanned.tokens.foldlM Builder.push r.builder
  match scanned.fault? with
  | some f => .error f
  | none => b.finish

theorem complete_of_step {b : Builder} {mode next : Mode} {s rest : List Char} {token : Token}
    (read : Scan.step mode s = .ok (some (token, next), rest)) :
    complete ⟨b, mode, s⟩ = b.push token >>= fun b' => complete ⟨b', next, rest⟩ := by
  rw [complete, scanFrom_of_step read, List.foldlM_cons]
  cases b.push token <;> rfl

theorem complete_of_stop {b : Builder} {mode : Mode} {s rest : List Char}
    (stop : Scan.step mode s = .ok (none, rest)) : complete ⟨b, mode, s⟩ = b.finish := by
  rw [complete, scanFrom_of_stop stop]
  rfl

theorem complete_of_fault {b : Builder} {mode : Mode} {s : List Char} {f : Fault Mark}
    (fault : Scan.step mode s = .error f) : complete ⟨b, mode, s⟩ = .error f := by
  rw [complete, scanFrom_of_fault fault]
  rfl

/-- The induction is on the length of what is unread, as each token takes something. -/
theorem complete_eq_ok_iff {r : Reading} {root : Node} :
    r.complete = .ok root ↔ ∃ last, Steps r last ∧ last.Ends root := by
  constructor
  · induction hn : r.rest.length using Nat.strongRecOn generalizing r with
    | ind n ih =>
      obtain ⟨b, mode, s⟩ := r
      intro h
      cases hstep : Scan.step mode s with
      | error f =>
        rw [complete_of_fault hstep] at h
        cases h
      | ok result =>
        obtain ⟨_ | ⟨token, next⟩, rest⟩ := result
        · rw [complete_of_stop hstep] at h
          exact ⟨⟨b, mode, s⟩, .refl, ⟨rest, hstep⟩, h⟩
        · rw [complete_of_step hstep] at h
          cases hpush : b.push token with
          | error f =>
            rw [hpush] at h
            cases h
          | ok b' =>
            rw [hpush] at h
            obtain ⟨last, hsteps, hends⟩ := ih rest.length (hn ▸ Scan.length_lt_of_step hstep) rfl h
            exact ⟨last, .head (.token hstep hpush) hsteps, hends⟩
  · rintro ⟨last, hsteps, hends⟩
    induction hsteps using Relation.ReflTransGen.head_induction_on with
    | refl =>
      obtain ⟨_, hstop⟩ := hends.stop
      exact (complete_of_stop hstop).trans hends.finish
    | head hstep _ ih =>
      cases hstep with
      | token read built =>
        rw [complete_of_step read, built]
        exact ih

/-- The reading of a text whose byte-order mark and declaration, if there are any, are followed by
`rest`. -/
def start (rest : List Char) : Reading := ⟨.start, .outset, rest⟩

end Reading

theorem Node.parse_eq_ok_iff {text : String} {root : Node} :
    Node.parse text = .ok root ↔
      ∃ rest last, Scan.preamble text.toList = .ok ((), rest) ∧ Reading.Steps (.start rest) last ∧
        last.Ends root := by
  have hparse : Node.parse text = .ok root ↔ (scan text.toList).root = .ok root := by
    rw [Node.parse]
    cases (scan text.toList).root with
    | error f => exact iff_of_false nofun nofun
    | ok node =>
      constructor
      all_goals
        intro h
        cases h
        rfl
  rw [hparse, scan]
  cases hpreamble : Scan.preamble text.toList with
  | error f => simp [Scanned.root, Builder.start, bind, Except.bind, pure, Except.pure]
  | ok result =>
    obtain ⟨⟨⟩, rest⟩ := result
    have hcomplete : (scanFrom .outset rest).root = (Reading.start rest).complete := rfl
    simp only [hcomplete, Reading.complete_eq_ok_iff, Except.ok.injEq, Prod.mk.injEq, true_and]
    constructor
    · rintro ⟨last, h⟩
      exact ⟨rest, last, rfl, h⟩
    · rintro ⟨_, last, rfl, h⟩
      exact ⟨last, h⟩

end SchemaDoc.Xml
