import Sightline.Hierarchy.Bytes
import Sightline.Hierarchy.Check
import Sightline.Hierarchy.Layout
import Sightline.Scene
/-! Keeping a hierarchy in a file beside its scene. The file is used only when it can be read, has the
right framing, and passes the check against the scene; otherwise the hierarchy is built afresh and
the file is written again. Whether writing succeeds changes nothing but the file. The file system is
the one place that the cache looks at: what lies there, and what may be done with it. -/
namespace Sightline

namespace Cache

def pathOf (source : String) : String := source ++ ".bvh"

inductive Entry where
  | missing
  | file (bytes : List UInt8)
  | directory
  deriving DecidableEq, Repr

/-- The place where the cache file belongs. Permissions say whether a file there can be read, whether
one can be created or replaced, and whether it can be removed. -/
structure Slot where
  entry : Entry
  readable : Bool
  writable : Bool
  removable : Bool
  deriving DecidableEq, Repr

namespace Slot

def load (s : Slot) : Except CacheError Hierarchy :=
  match s.entry with
  | .missing => .error (.io .notFound)
  | .directory => .error (.io .isADirectory)
  | .file bytes => if s.readable then Hierarchy.decode bytes else .error (.io .refused)

def save (s : Slot) (h : Hierarchy) : Except CacheError Slot :=
  match h.encode with
  | .error e => .error e
  | .ok bytes =>
    if s.entry = .directory then .error (.io .isADirectory)
    else if s.writable then .ok { s with entry := .file bytes }
    else .error (.io .refused)

def discard (s : Slot) : Slot :=
  match s.entry with
  | .file _ => if s.removable then { s with entry := .missing } else s
  | _ => s

def trusted (s : Slot) (triangles : Nat) : Option Hierarchy :=
  match s.load with
  | .error _ => none
  | .ok h =>
    match h.check triangles with
    | .ok _ => some h
    | .error _ => none

def store (s : Slot) (h : Hierarchy) : Slot :=
  match s.save h with
  | .ok saved => saved
  | .error _ => s.discard

end Slot

structure Updated where
  result : Except BuildError Hierarchy
  progress : List Float
  slot : Slot

def rebuild (scene : Scene) (slot : Slot) : Updated :=
  let built := Hierarchy.build scene.triangles.toList
  match built.result with
  | .ok h => ⟨.ok h,built.progress,slot.store h⟩
  | .error e => ⟨.error e,built.progress,slot⟩

def update (scene : Scene) (force : Bool) (slot : Slot) : Updated :=
  if scene.triangles.isEmpty then ⟨.error .emptyScene,[],slot⟩
  else if scene.source.isNone then
    let built := Hierarchy.build scene.triangles.toList
    ⟨built.result,built.progress,slot⟩
  else
    match (if force then none else slot.trusted scene.triangles.size) with
    | some h => ⟨.ok h,[],slot⟩
    | none => rebuild scene slot

theorem trustedChecked {s : Slot} {triangles : Nat} {h : Hierarchy}
    (found : s.trusted triangles = some h) :
    s.load = .ok h ∧ h.check triangles = .ok () := by
  unfold Slot.trusted at found
  cases loaded : s.load with
  | error e => simp [loaded] at found
  | ok g =>
    cases checked : g.check triangles with
    | error e => simp [loaded,checked] at found
    | ok u =>
      simp only [loaded,checked] at found
      cases Option.some.inj found
      exact ⟨rfl,checked⟩

end Cache
end Sightline
