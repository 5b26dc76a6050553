import ClientGen.Storage.Disk

/-!
# Storage

What a run needs of a file system. A program that is written against `Storage` runs on a real file
system as well as on a `Disk`, and what is proved of it is proved on the latter.
-/

namespace ClientGen

/-- Operations on files in a monad. -/
class Storage (m : Type → Type) where
  /-- Does a path lead to anything? -/
  isPresent : String → m Bool
  /-- the text of a file -/
  readText : String → m (Except FileError String)
  /-- writes a file in an existing directory -/
  writeText : (path text : String) → m (Except FileError Unit)
  /-- creates a directory and those on the way to it -/
  createDirectories : String → m (Except FileError Unit)

/-- Work on a disk. -/
abbrev OnDisk := StateM Disk

/-- Tries an operation; the disk stays as it is when the operation fails. -/
def OnDisk.attempt (operation : Disk → Except FileError Disk) : OnDisk (Except FileError Unit) :=
  fun disk =>
    match operation disk with
    | .ok disk => (.ok (), disk)
    | .error e => (.error e, disk)

instance : Storage OnDisk where
  isPresent path := fun disk => (disk.isPresent path, disk)
  readText path := fun disk => (disk.readText path, disk)
  writeText path text := OnDisk.attempt fun disk => disk.writeText path text
  createDirectories path := fun disk => disk.createDirectories path

end ClientGen
