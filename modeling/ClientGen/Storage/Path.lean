import ClientGen.Text.Blank

/-!
# Paths

Paths are texts with slashes. Their segments are what stands between slashes; `.` and `..` count as
segments, and what they mean is for the one who walks the path to say.

Names are taken from the last segment. For this purpose repeated slashes count as one, and a slash
or a `.` at the end of a path, or a `.` inside it, does not count.
-/

namespace ClientGen.Path

/-- Does a path start at the root? -/
def isAbsolute (path : String) : Bool := path.toList.head? = some '/'

/-- Does a path end in a slash? -/
def endsInSlash (path : String) : Bool := path.toList.getLast? = some '/'

/-- The segments of a path. -/
def segments (path : String) : List String :=
  ((Text.splitOnChar '/' path.toList).filter (! ·.isEmpty)).map String.ofList

/-- The segments without each `.` that does not count; one in front of a relative path does. -/
def components (path : String) : List String :=
  match segments path with
  | [] => []
  | first :: rest =>
    if first = "." ∧ isAbsolute path then rest.filter (· ≠ ".")
    else first :: rest.filter (· ≠ ".")

/-- A path of given components. -/
def ofComponents (absolute : Bool) (components : List String) : String :=
  (if absolute then "/" else "") ++ "/".intercalate components

/-- The path of the directory that a path is in; none for a path of one component, which is in the
working directory, and for the root. -/
def parent? (path : String) : Option String :=
  match components path with
  | [] => none
  | cs =>
    if cs.length = 1 ∧ !isAbsolute path then none
    else some (ofComponents (isAbsolute path) cs.dropLast)

/-- The name of what a path leads to. -/
def fileName? (path : String) : Option String :=
  match (components path).getLast? with
  | some name => if name = "." ∨ name = ".." then none else some name
  | none => none

/-- What follows the last point of a name; none when nothing else stands before it. -/
def nameExtension? (name : String) : Option String :=
  let reversed := name.toList.reverse
  match reversed.dropWhile (· ≠ '.') with
  | _ :: _ :: _ => some (String.ofList (reversed.takeWhile (· ≠ '.')).reverse)
  | _ => none

/-- The extension of a path. -/
def extension? (path : String) : Option String := (fileName? path).bind nameExtension?

/-- A path with an extension after it. -/
def withExtension (path extension : String) : String := path ++ "." ++ extension

end ClientGen.Path
