import ClientGen.CommandLine.Execute

/-!
# The program

Reads the command line, does what it says on the real file system, and prints what came of it.
-/

namespace ClientGen

/-- The error of the system as one of the program. -/
def FileError.ofSystem : IO.Error → FileError
  | .noFileOrDirectory _ _ _ => .notFound
  | .alreadyExists _ _ _ => .alreadyExists
  | e => .other (toString e)

/-- Tries an action on files. -/
def tryFile {α : Type} (action : IO α) : IO (Except FileError α) := do
  try
    return .ok (← action)
  catch e =>
    return .error (.ofSystem e)

instance : Storage IO where
  isPresent path := return (← tryFile (IO.FS.Handle.mk path .read)).toBool
  readText path := tryFile (IO.FS.readFile path)
  writeText path text := tryFile (IO.FS.writeFile path text)
  createDirectories path := tryFile (IO.FS.createDirAll path)

open CommandLine (Command UsageError)

/-- Prints why the command line is not obeyed. Asking for help is no mistake. -/
def reportUsage (error : UsageError) : IO UInt32 := do
  match error with
  | .help =>
    IO.println error.message
    return 0
  | .version =>
    IO.println (error.message ++ " " ++ generatorVersion)
    return 0
  | _ =>
    IO.eprintln ("error: " ++ error.message)
    return 2

end ClientGen

open ClientGen in
/-- The program. -/
def main (arguments : List String) : IO UInt32 := do
  match CommandLine.Command.parse arguments with
  | .error e => reportUsage e
  | .ok command =>
    let (failed, console) ← command.execute (m := IO)
    IO.print console.stdout
    IO.eprint console.stderr
    match failed with
    | none => return 0
    | some message =>
      IO.eprintln ("Error: " ++ message)
      return 1
