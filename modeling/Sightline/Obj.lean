import Sightline.Disk
import Sightline.Mesh
import Sightline.Path
import Sightline.Obj.Material
import Sightline.Obj.Model
/-! Reading a mesh from an OBJ file. The lines are taken in order and the first error ends the reading.
A group, or a change of material, closes the model that is being collected if it has elements; the end
of the file always closes one. All models together make one mesh, in which each keeps its vertices and
its triangles in order. It has normals only if every model has one for each vertex. -/
namespace Sightline.Obj

structure Reader where
  pool : Pool
  elements : List (List Corner)
  models : List Model
  materials : List String
  current : Option Nat
  deriving DecidableEq, Repr

namespace Reader

def start : Reader := ⟨.empty,[],[],[],none⟩

def close (r : Reader) : Except ObjError Reader := do
  let m ← Model.ofElements r.pool r.elements.reverse
  return { r with elements := [], models := m :: r.models }

def closeIfAny (r : Reader) : Except ObjError Reader :=
  if r.elements.isEmpty then .ok r else r.close

def step (library : String → Option (List UInt8)) (r : Reader) : Statement → Except ObjError Reader
  | .position point colors =>
    .ok { r with
      pool.positions := r.pool.positions.push point
      pool.colors := r.pool.colors + colors }
  | .texcoord => .ok { r with pool.texcoords := r.pool.texcoords + 1 }
  | .normal direction => .ok { r with pool.normals := r.pool.normals.push direction }
  | .element corners => .ok { r with elements := corners.map r.pool.resolve :: r.elements }
  | .group => r.closeIfAny
  | .library name =>
    let found := ((library name).bind Material.names?).getD []
    .ok { r with materials := r.materials ++ found }
  | .material name => do
    let chosen := Material.numberOf r.materials name
    let r ← if chosen = r.current then pure r else r.closeIfAny
    return { r with current := chosen }
  | .silent => .ok r

def line (library : String → Option (List UInt8)) (r : Reader) (text : Option (List Char)) :
    Except ObjError Reader := do
  match text with
  | none => throw .unreadable
  | some text => r.step library (← Statement.ofLine text)

end Reader

def models (library : String → Option (List UInt8)) (bytes : List UInt8) :
    Except ObjError (List Model) := do
  let r ← (Text.lines bytes).foldlM (Reader.line library) Reader.start
  return (← r.close).models.reverse

def libraries (bytes : List UInt8) : List String :=
  (Text.lines bytes).filterMap fun text =>
    match text.map Statement.ofLine with
    | some (.ok (.library name)) => some name
    | _ => none

/-! One mesh out of many models. -/

structure Merged where
  positions : Array Vec3
  normals : Array Vec3
  indices : Array UInt32
  complete : Bool
  deriving DecidableEq, Repr

namespace Merged

def empty : Merged := ⟨#[],#[],#[],true⟩

def add (all : Merged) (m : Model) : Merged where
  positions := all.positions ++ m.positions
  normals := if m.hasNormals then all.normals ++ m.normals else all.normals
  indices := all.indices ++ m.indices.map (all.positions.size.toUInt32 + ·)
  complete := all.complete && m.hasNormals

end Merged

def merge (ms : List Model) : Mesh :=
  let all := ms.foldl Merged.add Merged.empty
  .ofParts all.positions all.indices (if all.complete then some all.normals else none)

def load (contents : String → Except IoFailure (List UInt8)) (path : String) : Except ObjError Mesh :=
  match contents path with
  | .error .isADirectory => .error .unreadable
  | .error _ => .error .openFailed
  | .ok bytes =>
    (models (fun name => (contents (Path.beside path name)).toOption) bytes).map merge

end Sightline.Obj
