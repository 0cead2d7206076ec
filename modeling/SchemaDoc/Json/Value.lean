/-!
# JSON values and their indented text

Objects keep the order of their members. `Json.text` writes a value over several lines, each level
indented by two blanks; empty lists and objects stay on one line. In strings, quotes, backslashes
and the characters below U+0020 are escaped.
-/
namespace SchemaDoc

inductive Json
  | null
  | bool (b : Bool)
  | number (n : Nat)
  | string (s : String)
  | array (items : List Json)
  | object (members : List (String × Json))

namespace Json

def escapeChar (c : Char) : List Char :=
  if c = '"' then ['\\', '"']
  else if c = '\\' then ['\\', '\\']
  else if c = '\x08' then ['\\', 'b']
  else if c = '\x0c' then ['\\', 'f']
  else if c = '\n' then ['\\', 'n']
  else if c = '\r' then ['\\', 'r']
  else if c = '\t' then ['\\', 't']
  else if c.toNat < 0x20 then
    ['\\', 'u', '0', '0', Nat.digitChar (c.toNat / 16), Nat.digitChar (c.toNat % 16)]
  else [c]

def quoted (s : String) : String :=
  String.ofList ('"' :: s.toList.flatMap escapeChar ++ ['"'])

def indent (level : Nat) : String :=
  String.ofList (List.replicate (2 * level) ' ')

/-- Lines between two brackets, the closing one at `level`. -/
def bracketed (opening closing : String) (level : Nat) (lines : List String) : String :=
  if lines.isEmpty then opening ++ closing
  else opening ++ "\n" ++ ",\n".intercalate lines ++ "\n" ++ indent level ++ closing

mutual

/-- The text of a value whose last line is at `level`. -/
def text (level : Nat) : Json → String
  | null => "null"
  | bool b => if b then "true" else "false"
  | number n => toString n
  | string s => quoted s
  | array items => bracketed "[" "]" level (itemTexts (level + 1) items)
  | object members => bracketed "\x7b" "\x7d" level (memberTexts (level + 1) members)

def itemTexts (level : Nat) : List Json → List String
  | [] => []
  | item :: rest => (indent level ++ text level item) :: itemTexts level rest

def memberTexts (level : Nat) : List (String × Json) → List String
  | [] => []
  | (key, value) :: rest =>
    (indent level ++ quoted key ++ ": " ++ text level value) :: memberTexts level rest

end

def pretty (value : Json) : String :=
  text 0 value

theorem itemTexts_eq_map (level : Nat) (items : List Json) :
    itemTexts level items = items.map fun item => indent level ++ text level item := by
  induction items with
  | nil => simp [itemTexts]
  | cons item rest ih => simp [itemTexts, ih]

theorem memberTexts_eq_map (level : Nat) (members : List (String × Json)) :
    memberTexts level members =
      members.map fun m => indent level ++ quoted m.1 ++ ": " ++ text level m.2 := by
  induction members with
  | nil => simp [memberTexts]
  | cons m rest ih => simp [memberTexts, ih]

def ofOption (value : Option String) : Json :=
  match value with
  | some s => string s
  | none => null

end Json

end SchemaDoc
