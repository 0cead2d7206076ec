import SchemaDoc.CommandLine.Run

/-!
# Directories

A directory that is given by its files answers for each path that is walked from it. The steps of a
path are taken one by one; what is passed through on the way to a file is a directory. Of what lies
above the start nothing is known but that it is there.
-/
namespace SchemaDoc

/-- Files by their path. -/
abbrev Directory := List (String × ByteArray)

/-- Where a walk has come to. -/
inductive Place
  | file (content : ByteArray)
  | inside (steps : List String)
  | above

/-- The steps of a path, without those that stay. -/
def pathSteps (path : String) : List String :=
  (path.splitOn "/").filter fun step => step != "" && step != "."

def longestName : Nat := 255

/-- A path of more bytes than this is not looked at. -/
def longestPath : Nat := 4095

namespace Directory

/-- What is at the end of the steps `steps`. -/
def place (d : Directory) (steps : List String) : Except ReadFault Place :=
  match d.find? fun f => pathSteps f.1 == steps with
  | some f => .ok (.file f.2)
  | none =>
    if d.any fun f => steps.isPrefixOf (pathSteps f.1) then .ok (.inside steps) else .error .missing

/-- Takes one step. From a file there is none, not even one that stays. -/
def step (d : Directory) (here : Place) (name : String) : Except ReadFault Place :=
  match here with
  | .file _ => .error .notDirectory
  | .above =>
    if name ∈ ["", ".", ".."] then .ok .above
    else if longestName < name.utf8ByteSize then .error .nameTooLong
    else .error .missing
  | .inside steps =>
    if name ∈ ["", "."] then .ok (.inside steps)
    else if name = ".." then .ok (if steps = [] then .above else .inside steps.dropLast)
    else if longestName < name.utf8ByteSize then .error .nameTooLong
    else d.place (steps ++ [name])

/-- Walks a path, from the root if it begins with a slash. -/
def walk (d : Directory) (path : String) : Except ReadFault Place :=
  (path.splitOn "/").foldlM d.step (if path.startsWith "/" then .above else .inside [])

def read (d : Directory) : Files := fun path =>
  if longestPath < path.utf8ByteSize then .error .nameTooLong
  else match d.walk path with
    | .ok (.file content) => .ok content
    | .ok _ => .error .isDirectory
    | .error fault => .error fault

end Directory

end SchemaDoc
