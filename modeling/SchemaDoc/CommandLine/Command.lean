import SchemaDoc.Sql.Dialect

/-!
# Commands

The arguments name a subcommand, one file, and options in any order, each at most once. The value of
an option follows it, or stands in the same argument after an equals sign; only in the latter form
may it begin with a hyphen. After two hyphens no options come. Whatever is not written so is no
command.
-/
namespace SchemaDoc

/-- How `inspect` shows tables. -/
inductive Format
  | text
  | json
  deriving DecidableEq, Repr

inductive Command
  | version
  | inspect (file : String) (table? : Option String) (format : Format)
  | ddl (file : String) (dialect? : Option Dialect) (grants ifNotExists : Bool)
  | check (file : String)
  deriving DecidableEq, Repr

def Format.ofName? : String → Option Format
  | "text" => some .text
  | "json" => some .json
  | _ => none

/-- The options of a subcommand: those that take a value, and those that are flags. -/
structure OptionNames where
  valued : List String
  flags : List String

/-- What one or two arguments say. -/
inductive Item
  | operand (s : String)
  | value (name value : String)
  | flag (name : String)
  deriving DecidableEq, Repr

/-- Whether an argument is read as an option. A lone hyphen is not. -/
def looksLikeOption (argument : List Char) : Bool :=
  match argument with
  | '-' :: _ :: _ => true
  | _ => false

/-- The name of an option that is written with two hyphens, and its value in the same argument. -/
def longOption? (argument : List Char) : Option (String × Option String) :=
  match argument with
  | '-' :: '-' :: rest =>
    some (String.ofList (rest.takeWhile (· != '=')),
      ((rest.dropWhile (· != '=')).tail?).map String.ofList)
  | _ => none

/-- Reads the arguments after the subcommand. -/
def readItems? (names : OptionNames) : List String → Option (List Item)
  | [] => some []
  | argument :: rest =>
    if argument = "--" then some (rest.map .operand)
    else if looksLikeOption argument.toList then
      match longOption? argument.toList with
      | none => none
      | some (name, some value) =>
        if name ∈ names.valued then (readItems? names rest).map (.value name value :: ·) else none
      | some (name, none) =>
        if name ∈ names.flags then (readItems? names rest).map (.flag name :: ·)
        else if name ∈ names.valued then
          match rest with
          | [] => none
          | next :: more =>
            if looksLikeOption next.toList then none
            else (readItems? names more).map (.value name next :: ·)
        else none
    else (readItems? names rest).map (.operand argument :: ·)

namespace Item

def operand? : Item → Option String
  | .operand s => some s
  | _ => none

def valueOf? (name : String) : Item → Option String
  | .value n v => if n = name then some v else none
  | _ => none

def isFlag (name : String) : Item → Bool
  | .flag n => n == name
  | _ => false

end Item

/-- The only operand, which must not be empty. -/
def onlyFile? (items : List Item) : Option String :=
  match items.filterMap (·.operand?) with
  | [file] => if file.isEmpty then none else some file
  | _ => none

/-- The value of an option that may be given once, as `read` understands it. -/
def optionalValue? {α : Type} (name : String) (read : String → Option α) (items : List Item) :
    Option (Option α) :=
  match items.filterMap (·.valueOf? name) with
  | [] => some none
  | [v] => (read v).map some
  | _ => none

def flag? (name : String) (items : List Item) : Option Bool :=
  match items.filter (·.isFlag name) with
  | [] => some false
  | [_] => some true
  | _ => none

namespace Command

def inspect? (arguments : List String) : Option Command := do
  let items ← readItems? ⟨["table", "format"], []⟩ arguments
  let file ← onlyFile? items
  let table? ← optionalValue? "table" some items
  let format? ← optionalValue? "format" Format.ofName? items
  return .inspect file table? (format?.getD .text)

def ddl? (arguments : List String) : Option Command := do
  let items ← readItems? ⟨["dialect"], ["grants", "if-not-exists"]⟩ arguments
  let file ← onlyFile? items
  let dialect? ← optionalValue? "dialect" Dialect.ofName? items
  let grants ← flag? "grants" items
  let ifNotExists ← flag? "if-not-exists" items
  return .ddl file dialect? grants ifNotExists

def check? (arguments : List String) : Option Command := do
  let items ← readItems? ⟨[], []⟩ arguments
  let file ← onlyFile? items
  return .check file

def ofArguments? : List String → Option Command
  | "inspect" :: rest => inspect? rest
  | "ddl" :: rest => ddl? rest
  | "check" :: rest => check? rest
  | "--version" :: _ => some .version
  | "-V" :: _ => some .version
  | _ => none

def file? : Command → Option String
  | .version => none
  | .inspect file _ _ => some file
  | .ddl file _ _ _ => some file
  | .check file => some file

end Command

end SchemaDoc
