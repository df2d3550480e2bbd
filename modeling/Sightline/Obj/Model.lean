import Std.Data.HashMap
import Sightline.Obj.Statement
/-! From the elements of a model to its triangles. An element is cut into triangles around its first
corner, and an element of one or two corners becomes a triangle without area. Corners that agree in
position, texture coordinate and normal share a vertex; vertices are numbered in the order in which
they first occur. What a corner refers to is looked up when its vertex is made, with all that the file
holds by then. -/
namespace Sightline.Obj

structure Corner where
  position : Option Int
  texcoord : Option Int
  normal : Option Int
  deriving DecidableEq, Repr, Hashable

/-- Positive numbers count from one and negative ones back from the end. What comes out just before
the beginning is taken for missing. -/
def resolve (count : Nat) : Option Int → Option Int
  | none => none
  | some n =>
    let index := if n < 0 then count + n else n - 1
    if index = -1 then none else some index

structure Pool where
  positions : Array Vec3
  colors : Nat
  texcoords : Nat
  normals : Array Vec3
  deriving DecidableEq, Repr

namespace Pool

def empty : Pool := ⟨#[],0,0,#[]⟩

def resolve (p : Pool) (r : Reference) : Corner :=
  ⟨Obj.resolve p.positions.size r.position,Obj.resolve p.texcoords r.texcoord,
    Obj.resolve p.normals.size r.normal⟩

end Pool

def triangulate : List Corner → Except ObjError (List Corner)
  | [] => .error .polygon
  | [a] => .ok [a,a,a]
  | [a,b] => .ok [a,b,b]
  | a :: rest => .ok ((rest.zip rest.tail).flatMap fun (b,c) => [a,b,c])

structure Model where
  positions : Array Vec3
  normals : Array Vec3
  indices : Array UInt32
  deriving DecidableEq, Repr

def Model.hasNormals (m : Model) : Bool := m.normals.size == m.positions.size

structure Export where
  model : Model
  known : Std.HashMap Corner UInt32

namespace Export

def start : Export := ⟨⟨#[],#[],#[]⟩,∅⟩

def look (xs : Array α) (index : Option Int) : Option α :=
  match index with
  | some (.ofNat i) => xs[i]?
  | _ => none

def inside (count : Nat) (index : Int) : Bool := decide (0 ≤ index) && decide (index < count)

def vertexOf (p : Pool) (c : Corner) : Except ObjError (Vec3 × Option Vec3) :=
  match look p.positions c.position with
  | none => .error .positionRange
  | some point =>
    if p.texcoords ≠ 0 ∧ c.texcoord.any (!inside p.texcoords ·) then .error .texcoordRange
    else if p.normals.size ≠ 0 ∧ c.normal.any (!inside p.normals.size ·) then .error .normalRange
    else if p.colors ≠ 0 ∧ ¬c.position.any (fun i => decide (3 * i + 2 < (p.colors : Int))) then
      .error .colorRange
    else .ok (point,look p.normals c.normal)

def addCorner (p : Pool) (e : Export) (c : Corner) : Except ObjError Export :=
  match e.known[c]? with
  | some i => .ok { e with model.indices := e.model.indices.push i }
  | none =>
    (vertexOf p c).map fun (point,normal) =>
      let i := e.model.positions.size.toUInt32
      { model :=
          { positions := e.model.positions.push point
            normals := match normal with
              | some n => e.model.normals.push n
              | none => e.model.normals
            indices := e.model.indices.push i }
        known := e.known.insert c i }

def addElement (p : Pool) (e : Export) (corners : List Corner) : Except ObjError Export := do
  (← triangulate corners).foldlM (addCorner p) e

end Export

def Model.ofElements (p : Pool) (elements : List (List Corner)) : Except ObjError Model :=
  (elements.foldlM (Export.addElement p) Export.start).map Export.model

end Sightline.Obj
