import Sightline.Disk
import Sightline.Path
/-! A folder tree as a value, and the disk that it makes. Everything lies under one root, which is also
where relative paths start. A path is followed part by part; every part but the last must be a folder
that exists, also where the path leads up again. -/
namespace Sightline

abbrev Place := List String

structure Files where
  folders : List Place
  files : List (Place × List UInt8)
  deriving DecidableEq, Repr

namespace Files

def empty : Files := ⟨[],[]⟩

def isFolder (f : Files) (place : Place) : Bool := place.isEmpty || f.folders.contains place

def file? (f : Files) (place : Place) : Option (List UInt8) := f.files.lookup place

def follow (f : Files) : Place → List String → Except IoFailure Place
  | place, [] => .ok place
  | place, part :: rest =>
    if f.isFolder place then
      if part = "" ∨ part = "." then follow f place rest
      else if part = ".." then follow f place.dropLast rest
      else follow f (place ++ [part]) rest
    else if (f.file? place).isSome then .error .refused
    else .error .notFound

def locate (f : Files) (path : String) : Except IoFailure Place :=
  if path = "" then .error .notFound else f.follow [] (Path.pieces path)

def read (f : Files) (path : String) : Except IoFailure (List UInt8) := do
  let place ← f.locate path
  if f.isFolder place then throw .isADirectory
  match f.file? place with
  | some bytes => return bytes
  | none => throw .notFound

def put (f : Files) (place : Place) (bytes : List UInt8) : Files :=
  { f with files := (place,bytes) :: f.files.filter (·.1 != place) }

def write (f : Files) (path : String) (bytes : List UInt8) : Except IoFailure Files := do
  let place ← f.locate path
  if f.isFolder place then throw .isADirectory
  return f.put place bytes

def remove (f : Files) (path : String) : Files :=
  match f.locate path with
  | .ok place => { f with files := f.files.filter (·.1 != place) }
  | .error _ => f

def withFile (f : Files) (place : Place) (bytes : List UInt8) : Files :=
  let above := (List.range place.length).map place.take
  { f.put place bytes with folders := f.folders ++ above }

def withFolder (f : Files) (place : Place) : Files := { f with folders := f.folders ++ [place] }

def names (f : Files) (folder : Place) : List String :=
  let inside (place : Place) : Option String :=
    if place.take folder.length = folder then place[folder.length]? else none
  ((f.folders ++ f.files.map Prod.fst).filterMap inside).eraseDups.mergeSort
    fun a b => decide (a ≤ b)

def disk : Disk (StateM Files) where
  read path := do return (← get).read path
  write path bytes := do
    match (← get).write path bytes with
    | .ok f => set f; return .ok ()
    | .error why => return .error why
  remove path := modify (·.remove path)

end Files
end Sightline
