import SchemaDoc.Sql.Ddl

/-!
# Reports

A command that cannot be carried out says what it could not do and why, down to the last cause.
Causes stand on lines of their own, indented, and numbered if there are several.
-/
namespace SchemaDoc

/-- Why a file cannot be read as a text. -/
inductive ReadFault
  | missing
  | isDirectory
  | notDirectory
  | nameTooLong
  | denied
  | notText
  deriving DecidableEq, Repr

def ReadFault.message : ReadFault → String
  | .missing => "No such file or directory (os error 2)"
  | .isDirectory => "Is a directory (os error 21)"
  | .notDirectory => "Not a directory (os error 20)"
  | .nameTooLong => "File name too long (os error 36)"
  | .denied => "Permission denied (os error 13)"
  | .notText => "stream did not contain valid UTF-8"

inductive CommandFault
  | unknownDialect (name : String)
  | unreadable (path : String) (cause : ReadFault)
  | unloadable (path : String) (cause : LoadFault)
  | unsupportedType (table : String) (cause : UnsupportedType)
  | tableNotFound (name : String)
  | danglingReferences (count : Nat)
  deriving DecidableEq, Repr

namespace CommandFault

def message : CommandFault → String
  | .unknownDialect name => "unknown dialect: " ++ name
  | .unreadable path _ => "failed to read " ++ path
  | .unloadable path _ => "failed to load schema from " ++ path
  | .unsupportedType table cause => "table '" ++ table ++ "': " ++ cause.message
  | .tableNotFound name => "table not found: " ++ name
  | .danglingReferences count => toString count ++ " dangling foreign key reference(s)"

/-- The causes, the nearest first. -/
def causes : CommandFault → List String
  | .unreadable _ cause => [cause.message]
  | .unloadable _ cause => cause.messages
  | .unsupportedType _ cause => [cause.message]
  | _ => []

/-- A text whose further lines begin with `margin`. -/
def withMargin (margin text : String) : String :=
  String.ofList (text.toList.flatMap fun c => if c = '\n' then '\n' :: margin.toList else [c])

/-- The lines of several causes, numbered from `n` on. -/
def numbered (n : Nat) : List String → String
  | [] => ""
  | cause :: rest =>
    "    " ++ toString n ++ ": " ++ withMargin "       " cause ++ "\n" ++ numbered (n + 1) rest

def causeText : List String → String
  | [] => ""
  | [cause] => "\nCaused by:\n    " ++ withMargin "    " cause ++ "\n"
  | causes => "\nCaused by:\n" ++ numbered 0 causes

def report (fault : CommandFault) : String :=
  "Error: " ++ fault.message ++ "\n" ++ causeText fault.causes

end CommandFault

end SchemaDoc
