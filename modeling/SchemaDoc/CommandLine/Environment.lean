import SchemaDoc.Text.Alphanumeric
import SchemaDoc.Text.Blank
import SchemaDoc.Text.Front

/-!
# Environments and environment files

An environment is a list of entries. The value of a name is what follows the name and an equals sign
in the first entry that begins with them, so that there may be equals signs in names as well as in
values. A file adds further entries; a name that has a value keeps it. Each line of a file is empty,
a comment after `#`, or a name, an equals sign and a value. Parts of a value may stand in single
quotes, which keep everything as it is, or in double quotes; elsewhere a backslash keeps the next
character and `$` puts in the value of a name. Quotes may span lines. The first line that is no
text, or is not written so, ends the file.
-/
namespace SchemaDoc

/-- Entries of the form `name=value`. -/
abbrev Environment := List String

namespace Environment

def entry (name value : String) : String :=
  name ++ "=" ++ value

/-- The value of a name in an entry. -/
def entryValue? (name e : String) : Option String :=
  (Text.strip? (name.toList ++ ['=']) e.toList).map String.ofList

/-- The value of a name. The empty name has none. -/
def value? (env : Environment) (name : String) : Option String :=
  if name = "" then none else env.findSome? (entryValue? name)

end Environment

/-- Where the end of a line finds its reader. -/
inductive LineState
  | closed
  | blank
  | escaped
  | weak
  | weakEscaped
  | strong
  | strongEscaped
  deriving DecidableEq, Repr

/-- The reader's state after one more character. Only `#` after a blank begins a comment, which is
not seen here. -/
def LineState.next (c : Char) : LineState → LineState
  | closed =>
    if Text.isBlank c && c != '\n' && c != '\r' then blank
    else if c = '\\' then escaped else if c = '"' then weak else if c = '\'' then strong else closed
  | blank =>
    if c = '\\' then escaped else if c = '"' then weak else if c = '\'' then strong else closed
  | escaped => closed
  | weak => if c = '\\' then weakEscaped else if c = '"' then closed else weak
  | weakEscaped => weak
  | strong => if c = '\\' then strongEscaped else if c = '\'' then closed else strong
  | strongEscaped => strong

/-- Reads one line up to its comment: what comes before the comment, and the state there, which is
none in a comment. -/
def readLine : LineState → List Char → List Char × Option LineState
  | state, [] => ([], some state)
  | state, c :: rest =>
    if state = .blank ∧ c = '#' then ([], none)
    else
      let more := readLine (state.next c) rest
      (c :: more.1, more.2)

def splitLines : List UInt8 → List (List UInt8)
  | [] => []
  | b :: rest =>
    if b = 10 then [b] :: splitLines rest
    else match splitLines rest with
      | [] => [[b]]
      | line :: lines => (b :: line) :: lines

def decodeLines : List (List UInt8) → List (List Char)
  | [] => []
  | line :: lines =>
    match String.fromUTF8? ⟨line.toArray⟩ with
    | some text => text.toList :: decodeLines lines
    | none => []

/-- The lines of a file. A byte-order mark at its start is left out. -/
def fileLines (bytes : ByteArray) : List (List Char) :=
  match bytes.data.toList with
  | 0xEF :: 0xBB :: 0xBF :: rest => decodeLines (splitLines rest)
  | all => decodeLines (splitLines all)

/-- Joins lines until quotes are closed. A last line that is not closed is none. -/
def joinLines (state : LineState) (before : List Char) :
    List (List Char) → List (Option (List Char))
  | [] => if state = .closed then [] else [none]
  | line :: lines =>
    if ((before ++ line).dropWhile Text.isBlank).head? = some '#' then
      some [] :: joinLines .closed [] lines
    else match readLine state line with
      | (read, none) => some (before ++ read) :: joinLines .closed [] lines
      | (read, some .closed) => some (before ++ read) :: joinLines .closed [] lines
      | (read, some state) => joinLines state (before ++ read) lines

/-- Inside a value: whether double quotes are open, and what is being read. -/
inductive ValueState
  | plain (weak : Bool)
  | strong
  | escaped (weak : Bool)
  /-- The name after `$`, its last character first. -/
  | name (weak : Bool) (read : List Char)
  /-- The name in braces, its last character first. -/
  | braced (weak : Bool) (read : List Char)
  /-- After the blank that ends the value. -/
  | ended
  deriving DecidableEq, Repr

/-- What is put in for a name: its value, or nothing. -/
def valueOf (env : Environment) (name : List Char) : List Char :=
  ((env.value? (String.ofList name)).getD "").toList

/-- Reads a value on from a state. -/
def readValue? (env : Environment) : ValueState → List Char → Option (List Char)
  | .plain true, [] => none
  | .plain false, [] => some []
  | .strong, [] => none
  | .escaped weak, [] => if weak then none else some []
  | .name weak read, [] => if weak then none else some (valueOf env read.reverse)
  | .braced _ _, [] => none
  | .ended, [] => some []
  | .ended, c :: rest =>
    if c = ' ' ∨ c = '\t' then readValue? env .ended rest else if c = '#' then some [] else none
  | .escaped weak, c :: rest =>
    if c = '\\' ∨ c = '\'' ∨ c = '"' ∨ c = '$' ∨ c = ' ' then
      (readValue? env (.plain weak) rest).map (c :: ·)
    else if c = 'n' then (readValue? env (.plain weak) rest).map ('\n' :: ·)
    else none
  | .strong, c :: rest =>
    if c = '\'' then readValue? env (.plain false) rest
    else (readValue? env .strong rest).map (c :: ·)
  | .name weak read, c :: rest =>
    if Text.isAlphanumeric c then readValue? env (.name weak (c :: read)) rest
    else if c = '\x7b' ∧ read = [] then readValue? env (.braced weak []) rest
    else if c = '$' then (readValue? env (.name weak []) rest).map (valueOf env read.reverse ++ ·)
    else (readValue? env (.plain weak) rest).map fun more => valueOf env read.reverse ++ c :: more
  | .braced weak read, c :: rest =>
    if c = '\x7d' then (readValue? env (.plain weak) rest).map (valueOf env read.reverse ++ ·)
    else readValue? env (.braced weak (c :: read)) rest
  | .plain weak, c :: rest =>
    if c = '$' then readValue? env (.name weak []) rest
    else if c = '\\' then readValue? env (.escaped weak) rest
    else if c = '"' then readValue? env (.plain !weak) rest
    else if weak then (readValue? env (.plain true) rest).map (c :: ·)
    else if c = '\'' then readValue? env .strong rest
    else if c = ' ' ∨ c = '\t' then readValue? env .ended rest
    else (readValue? env (.plain false) rest).map (c :: ·)

def isKeyStart (c : Char) : Bool :=
  c.isAlpha || c == '_'

def isKeyPart (c : Char) : Bool :=
  c.isAlphanum || c == '_' || c == '.'

/-- A name, and what follows it after blanks. -/
def readKey? (s : List Char) : Option (List Char × List Char) :=
  if s.head?.any isKeyStart then
    some (s.takeWhile isKeyPart, (s.dropWhile isKeyPart).dropWhile Text.isBlank)
  else none

def readAssignment? (s : List Char) : Option (String × List Char) := do
  let (key, rest) ← readKey? s
  match rest with
  | '=' :: rest => return (String.ofList key, rest.dropWhile Text.isBlank)
  | _ =>
    if key = "export".toList then
      let (key, rest) ← readKey? rest
      match rest with
      | '=' :: rest => return (String.ofList key, rest.dropWhile Text.isBlank)
      | _ => none
    else none

/-- What a line says: nothing, or a name and its value. -/
def readEntry? (env : Environment) (line : List Char) : Option (Option (String × String)) :=
  let line := Text.trimChars line
  if line.isEmpty || line.head? = some '#' then some none
  else do
    let (key, rest) ← readAssignment? line
    if rest.head? = some '#' then return some (key, "")
    else
      let value ← readValue? env (.plain false) rest
      return some (key, String.ofList value)

namespace Environment

/-- The environment with a value for one more name, unless the name has one. There is none with a
value that holds a null character. -/
def add? (env : Environment) (name value : String) : Option Environment :=
  if (env.value? name).isSome then some env
  else if '\x00' ∈ value.toList then none
  else some (env ++ [entry name value])

def addLines? (env : Environment) : List (Option (List Char)) → Option Environment
  | [] => some env
  | none :: _ => some env
  | some line :: lines =>
    match readEntry? env line with
    | none => some env
    | some none => addLines? env lines
    | some (some (name, value)) =>
      match env.add? name value with
      | none => none
      | some more => addLines? more lines

def addFile? (env : Environment) (bytes : ByteArray) : Option Environment :=
  env.addLines? (joinLines .closed [] (fileLines bytes))

end Environment

end SchemaDoc
