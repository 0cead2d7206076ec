import SchemaDoc.CommandLine.Command
import SchemaDoc.CommandLine.Environment
import SchemaDoc.CommandLine.Report
import SchemaDoc.CommandLine.Summary
import SchemaDoc.Schema.Finding
import SchemaDoc.Schema.Record
import SchemaDoc.Sql.Grant

/-!
# Running a command

What a command does is a function of its arguments, the files and the environment. The file `.env`
is taken in first of all, and with a value that no environment can hold the program breaks off. Then
comes wrong usage; `ddl` looks at its settings before it reads its file. A command prints nothing
before it has succeeded, except that `check` prints what it has found and then fails.
-/
namespace SchemaDoc

/-- The files that can be reached. -/
abbrev Files := String → Except ReadFault ByteArray

inductive Outcome
  | success (output : String)
  | failure (output : String) (fault : CommandFault)
  | usage
  | crash
  deriving DecidableEq, Repr

namespace Outcome

def exitCode : Outcome → Nat
  | .success _ => 0
  | .failure _ _ => 1
  | .usage => 2
  | .crash => 101

def output : Outcome → String
  | .success output => output
  | .failure output _ => output
  | .usage => ""
  | .crash => ""

def report? : Outcome → Option String
  | .failure _ fault => some fault.report
  | _ => none

end Outcome

/-- How statements are written, unless the command says otherwise. -/
structure Settings where
  dialect : Dialect
  ifNotExists : Bool
  deriving DecidableEq, Repr

namespace Settings

/-- The settings of an environment. A dialect that is not known is a fault. -/
def ofEnvironment (env : Environment) : Except CommandFault Settings :=
  let name := (env.value? "DBS_DIALECT").getD "postgres"
  match Dialect.ofName? name with
  | some dialect => .ok ⟨dialect, env.value? "DBS_IF_NOT_EXISTS" == some "true"⟩
  | none => .error (.unknownDialect name)

def override (s : Settings) (dialect? : Option Dialect) (ifNotExists : Bool) : Settings :=
  ⟨dialect?.getD s.dialect, s.ifNotExists || ifNotExists⟩

end Settings

def readText (files : Files) (path : String) : Except ReadFault String := do
  let bytes ← files path
  match String.fromUTF8? bytes with
  | some text => .ok text
  | none => .error .notText

def loadFile (files : Files) (path : String) : Except CommandFault Database :=
  match readText files path with
  | .error cause => .error (.unreadable path cause)
  | .ok text => (Database.parse text).mapError (.unloadable path)

/-- Statements as they are printed, each on its own with a semicolon. -/
def script (statements : List String) : String :=
  String.join (statements.map (· ++ ";\n"))

def selectTables (db : Database) (table? : Option String) : Except CommandFault (List Table) :=
  match table? with
  | none => .ok db.tables
  | some name =>
    match db.findTable? name with
    | some table => .ok [table]
    | none => .error (.tableNotFound name)

/-- The tables of a database as they are shown; a single table that was asked for by name is shown
by itself. -/
def showTables (db : Database) (format : Format) (table? : Option String) :
    Except CommandFault String := do
  let tables ← selectTables db table?
  match format, table? with
  | .text, _ => return String.join (tables.map (·.summary))
  | .json, none => return db.jsonText ++ "\n"
  | .json, some _ => return String.join (tables.map fun t => t.record.toJson.pretty ++ "\n")

def checkReferences (path : String) (db : Database) : Outcome :=
  let findings := db.danglingReferences
  if findings.isEmpty then
    .success (path ++ ": " ++ toString db.tables.length ++ " tables, all foreign keys resolve\n")
  else
    .failure (String.join (findings.map fun f => "- " ++ f.message ++ "\n"))
      (.danglingReferences findings.length)

/-- The statements of a database, with its grants if they are wanted. -/
def writeScript (db : Database) (s : Settings) (grants : Bool) : Outcome :=
  match db.ddl s.dialect s.ifNotExists with
  | .ok statements => .success (script (statements ++ if grants then db.grants s.dialect else []))
  | .error (.unsupportedType table cause) => .failure "" (.unsupportedType table cause)
  | .error (.unwritable _) => .crash

namespace Command

def run (files : Files) (env : Environment) : Command → Outcome
  | .version => .success "dbs 0.1.0\n"
  | .inspect file table? format =>
    match loadFile files file with
    | .error fault => .failure "" fault
    | .ok db =>
      match showTables db format table? with
      | .ok output => .success output
      | .error fault => .failure "" fault
  | .ddl file dialect? grants ifNotExists =>
    match Settings.ofEnvironment env with
    | .error fault => .failure "" fault
    | .ok settings =>
      match loadFile files file with
      | .error fault => .failure "" fault
      | .ok db => writeScript db (settings.override dialect? ifNotExists) grants
  | .check file =>
    match loadFile files file with
    | .error fault => .failure "" fault
    | .ok db => checkReferences file db

end Command

/-- The environment with the values of the file `.env`, if there is one. -/
def withEnvironmentFile? (files : Files) (env : Environment) : Option Environment :=
  match files ".env" with
  | .ok bytes => env.addFile? bytes
  | .error _ => some env

def runArguments (arguments : List String) (files : Files) (env : Environment) : Outcome :=
  match withEnvironmentFile? files env with
  | none => .crash
  | some env =>
    match Command.ofArguments? arguments with
    | none => .usage
    | some command => command.run files env

end SchemaDoc
