import SchemaDoc.CommandLine.Run

/-!
# The program

Reads the arguments, the file that they name, the file `.env` and the environment, and prints what
the command makes of them.
-/
namespace SchemaDoc

def readFile (path : String) : IO (Except ReadFault ByteArray) := do
  try
    let bytes ← IO.FS.readBinFile path
    return .ok bytes
  catch fault =>
    match fault with
    | .noFileOrDirectory .. => return .error .missing
    | .inappropriateType (some _) .. => return .error .notDirectory
    | .inappropriateType none .. => return .error .isDirectory
    | .invalidArgument .. => return .error .nameTooLong
    | .permissionDenied .. => return .error .denied
    | _ => return .error .missing

/-- The environment of the process, or the values that commands look at where the system does not
show it. -/
def processEnvironment : IO Environment := do
  match ← readFile "/proc/self/environ" with
  | .ok bytes =>
    match String.fromUTF8? bytes with
    | some text => return (text.splitOn "\x00").filter (· != "")
    | none => namedEntries
  | .error _ => namedEntries
where
  namedEntries : IO Environment := do
    let values ← ["DBS_DIALECT", "DBS_IF_NOT_EXISTS"].mapM fun name => do
      return (name, ← IO.getEnv name)
    return values.filterMap fun v => v.2.map (Environment.entry v.1)

end SchemaDoc

open SchemaDoc in
def main (arguments : List String) : IO UInt32 := do
  let environmentFile ← readFile ".env"
  let document ← match (Command.ofArguments? arguments).bind (·.file?) with
    | some path => readFile path
    | none => pure (.error .missing)
  let files : Files := fun path => if path = ".env" then environmentFile else document
  let outcome := runArguments arguments files (← processEnvironment)
  IO.print outcome.output
  match outcome with
  | .usage => IO.eprintln "usage: dbs inspect|ddl|check FILE"
  | _ => IO.eprint (outcome.report?.getD "")
  return UInt32.ofNat outcome.exitCode
