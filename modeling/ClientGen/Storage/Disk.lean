import ClientGen.Storage.Path

/-!
# Disks

A disk holds files and directories at places. The root is always a directory, and the working
directory. `Disk.walk` follows a path from the root; `.` stays where it is and `..` goes up.

There are no links, no devices and no other special files, so that two places never share a file and
what is written can be read. There are no permissions, and every file holds a text in UTF-8.

Operations fail with a `FileError`. An operation that fails leaves the disk as it was, except that
`createDirectories` keeps what it has created before the failure.
-/

namespace ClientGen

/-- Why an operation on files fails. -/
inductive FileError where
  | notFound
  /-- a directory was expected -/
  | notDirectory
  /-- a file was expected -/
  | isDirectory
  | alreadyExists
  | nameTooLong
  /-- a path has a character with code zero in it -/
  | badPath
  /-- any other problem, in the words of the system -/
  | other (reason : String)
  deriving DecidableEq, Repr

/-- The error in the words of the system. -/
def FileError.message : FileError → String
  | .notFound => "No such file or directory (os error 2)"
  | .notDirectory => "Not a directory (os error 20)"
  | .isDirectory => "Is a directory (os error 21)"
  | .alreadyExists => "File exists (os error 17)"
  | .nameTooLong => "File name too long (os error 36)"
  | .badPath => "file name contained an unexpected NUL byte"
  | .other reason => reason

/-- A place on a disk: the names on the way from the root. -/
abbrev Place := List String

/-- What is at a place. -/
inductive Entry where
  | directory
  | file (text : String)
  deriving DecidableEq, Repr

/-- Files and directories at their places. -/
structure Disk where
  entries : List (Place × Entry) := []
  deriving DecidableEq, Repr, Inhabited

namespace Disk

/-- The disk with nothing on it. -/
def empty : Disk := {}

/-- What is at a place; at the root there is a directory. -/
def get? (disk : Disk) : Place → Option Entry
  | [] => some .directory
  | place => disk.entries.lookup place

/-- Puts something at a place, in place of what is there. -/
def put (disk : Disk) (place : Place) (entry : Entry) : Disk :=
  ⟨(place, entry) :: disk.entries.filter (·.1 ≠ place)⟩

/-- Takes away what is at a place. -/
def erase (disk : Disk) (place : Place) : Disk :=
  ⟨disk.entries.filter (·.1 ≠ place)⟩

/-- The longest name of a file or directory, in bytes. -/
def maxNameSize : Nat := 255

/-- What a name in a directory stands for. -/
def find (disk : Disk) (directory : Place) (name : String) :
    Except FileError (Option Entry) :=
  if maxNameSize < name.utf8ByteSize then .error .nameTooLong
  else .ok (disk.get? (directory ++ [name]))

/-- One step from a directory to a directory. -/
def step (disk : Disk) (directory : Place) (segment : String) : Except FileError Place :=
  if segment = "." then .ok directory
  else if segment = ".." then .ok directory.dropLast
  else do
    match ← disk.find directory segment with
    | none => throw .notFound
    | some (.file _) => throw .notDirectory
    | some .directory => return directory ++ [segment]

/-- The directory that segments lead to from a directory. -/
def walk (disk : Disk) (directory : Place) (segments : List String) :
    Except FileError Place :=
  segments.foldlM disk.step directory

/-- Where a path leads, up to its last segment. -/
structure Goal where
  /-- the directory that the last segment is in -/
  directory : Place
  /-- the last segment; none when it does not name an entry of the directory -/
  name : Option String
  deriving DecidableEq, Repr

/-- Follows a path up to its last segment. -/
def approach (disk : Disk) (path : String) : Except FileError Goal := do
  if path.toList.contains '\x00' then throw .badPath
  if path.isEmpty then throw .notFound
  let segments := Path.segments path
  let directory ← disk.walk [] segments.dropLast
  match segments.getLast? with
  | none => return ⟨directory, none⟩
  | some last =>
    if last = "." ∨ last = ".." then return ⟨← disk.step directory last, none⟩
    else return ⟨directory, some last⟩

/-- What a path leads to. Only a directory may be called by a path that ends in a slash. -/
def lookup (disk : Disk) (path : String) : Except FileError Entry := do
  let goal ← disk.approach path
  match goal.name with
  | none => return .directory
  | some name =>
    match ← disk.find goal.directory name with
    | none => throw .notFound
    | some .directory => return .directory
    | some (.file text) =>
      if Path.endsInSlash path then throw .notDirectory else return .file text

/-- Does a path lead to anything? -/
def isPresent (disk : Disk) (path : String) : Bool := (disk.lookup path).toBool

/-- Does a path lead to a directory? -/
def isDirectory (disk : Disk) (path : String) : Bool :=
  match disk.lookup path with
  | .ok .directory => true
  | _ => false

/-- The text of a file. -/
def readText (disk : Disk) (path : String) : Except FileError String := do
  match ← disk.lookup path with
  | .directory => throw .isDirectory
  | .file text => return text

/-- Writes a file in an existing directory, in place of the file that may be there. -/
def writeText (disk : Disk) (path text : String) : Except FileError Disk := do
  let goal ← disk.approach path
  match goal.name with
  | none => throw .isDirectory
  | some name =>
    if Path.endsInSlash path then throw .isDirectory
    match ← disk.find goal.directory name with
    | some .directory => throw .isDirectory
    | _ => return disk.put (goal.directory ++ [name]) (.file text)

/-- Creates a directory in an existing one. -/
def createDirectory (disk : Disk) (path : String) : Except FileError Disk := do
  let goal ← disk.approach path
  match goal.name with
  | none => throw .alreadyExists
  | some name =>
    match ← disk.find goal.directory name with
    | some _ => throw .alreadyExists
    | none => return disk.put (goal.directory ++ [name]) .directory

/-- Creates the directory of a path, whose components are given from the last to the first, unless
it is there. Where a directory on the way is missing, it is created first. -/
def createUpTo (disk : Disk) (absolute : Bool) : (reversed : List String) →
    Except FileError Unit × Disk
  | [] => (.ok (), disk)
  | last :: before =>
    let path := Path.ofComponents absolute (last :: before).reverse
    match disk.createDirectory path with
    | .ok created => (.ok (), created)
    | .error .notFound =>
      match disk.createUpTo absolute before with
      | (.error e, disk) => (.error e, disk)
      | (.ok (), disk) =>
        match disk.createDirectory path with
        | .ok created => (.ok (), created)
        | .error e => if disk.isDirectory path then (.ok (), disk) else (.error e, disk)
    | .error e => if disk.isDirectory path then (.ok (), disk) else (.error e, disk)

/-- Creates a directory and the directories on the way to it, as far as they are missing. -/
def createDirectories (disk : Disk) (path : String) : Except FileError Unit × Disk :=
  disk.createUpTo (Path.isAbsolute path) (Path.components path).reverse

/-- Takes a file away. -/
def removeFile (disk : Disk) (path : String) : Except FileError Disk := do
  let goal ← disk.approach path
  match goal.name, ← disk.lookup path with
  | some name, .file _ => return disk.erase (goal.directory ++ [name])
  | _, _ => throw .isDirectory

/-- The paths of all files, in order. -/
def files (disk : Disk) : List String :=
  (disk.entries.filterMap fun (place, entry) =>
    match entry with
    | .file _ => some ("/".intercalate place)
    | .directory => none).mergeSort (· ≤ ·)

end Disk

end ClientGen
