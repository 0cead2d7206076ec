/-!
# Events

What loading and writing pass over, and what they report on the way. An event has a level, a fixed
message and named values.
-/
namespace SchemaDoc

inductive Level
  | trace
  | debug
  | warn
  deriving DecidableEq, Repr

/-- A value that an event carries. -/
inductive EventValue
  | text (s : String)
  | count (n : Nat)
  deriving DecidableEq, Repr

inductive Event
  /-- A child of the root that is no table. -/
  | ignoredElement (tag : String)
  | modelBuilt (tables columns : Nat)
  /-- A foreign key whose target is not told in full. -/
  | skippedForeignKey (table column : String)
  | grantsUnsupported (dialect table : String)
  | skippedPermission (table user action : String)
  deriving DecidableEq, Repr

namespace Event

def level : Event → Level
  | .ignoredElement _ => .trace
  | .modelBuilt _ _ => .debug
  | .skippedForeignKey _ _ => .warn
  | .grantsUnsupported _ _ => .debug
  | .skippedPermission _ _ _ => .warn

def message : Event → String
  | .ignoredElement _ => "ignoring element"
  | .modelBuilt _ _ => "schema model built"
  | .skippedForeignKey _ _ => "skipping foreign key without fkey_table/fkey_column"
  | .grantsUnsupported _ _ => "grants not supported"
  | .skippedPermission _ _ _ => "skipping invalid permission"

def fields : Event → List (String × EventValue)
  | .ignoredElement tag => [("tag", .text tag)]
  | .modelBuilt tables columns => [("tables", .count tables), ("columns", .count columns)]
  | .skippedForeignKey table column => [("table", .text table), ("column", .text column)]
  | .grantsUnsupported dialect table => [("dialect", .text dialect), ("table", .text table)]
  | .skippedPermission table user action =>
    [("table", .text table), ("user", .text user), ("action", .text action)]

end Event

end SchemaDoc
