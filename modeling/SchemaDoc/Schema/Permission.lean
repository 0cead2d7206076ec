import SchemaDoc.Document.Element
import SchemaDoc.Text.Ascending

/-!
# Permissions

A permission block names a user and lists actions, in the words of the document.
-/
namespace SchemaDoc

structure Permission where
  user : String
  actions : List String
  deriving DecidableEq, Repr

namespace Permission

/-- An action without a text is the empty word. -/
def ofElement (e : Element) : Except LoadFault Permission := do
  let user ← e.requiredAttribute "user"
  return ⟨user, (e.childrenTagged "permission").map fun child => child.text.getD ""⟩

/-- The actions in ascending order, without repeats. -/
def actionSet (p : Permission) : List String :=
  Text.ascending p.actions

def allows (p : Permission) (action : String) : Bool :=
  p.actions.contains action

theorem mem_actionSet {p : Permission} {action : String} :
    action ∈ p.actionSet ↔ p.allows action := by
  simp [actionSet, allows, Text.mem_ascending]

end Permission

end SchemaDoc
