import Sightline.Triangle
/-! Indexed geometry as a loader hands it over: positions, perhaps one normal for each, and indices
that name a face by threes. An index may be out of range and the last face may be incomplete; such
faces are passed over wherever faces are looked at. Missing normals are smoothed from the faces, and
a mesh can be moved and scaled into a cube around the origin. -/
namespace Sightline

def Face.ofIndices : List UInt32 → List Face
  | a :: b :: c :: rest => ⟨a,b,c⟩ :: ofIndices rest
  | _ => []

structure Mesh where
  positions : Array Vec3
  normals : Option (Array Vec3)
  indices : Array UInt32
  bounds : Box
  deriving DecidableEq, Repr

namespace Mesh

def ofParts (positions : Array Vec3) (indices : Array UInt32) (normals : Option (Array Vec3)) :
    Mesh :=
  ⟨positions,normals,indices,.ofPoints positions.toList⟩

def vertexCount (m : Mesh) : Nat := m.positions.size
def triangleCount (m : Mesh) : Nat := m.indices.size / 3
def center (m : Mesh) : Vec3 := m.bounds.centroid

def faces (m : Mesh) : List Face :=
  (Face.ofIndices m.indices.toList).filter fun f => decide (f.InRange m.positions.size)

def faceNormal (a b c : Vec3) : Vec3 := ((b - a).cross (c - a)).unitOrZero

def addFace (positions sums : Array Vec3) (f : Face) : Array Vec3 :=
  match positions[f.a.toNat]?, positions[f.b.toNat]?, positions[f.c.toNat]? with
  | some a, some b, some c =>
    let n := faceNormal a b c
    [f.a,f.b,f.c].foldl (fun sums i => sums.modify i.toNat (· + n)) sums
  | _, _, _ => sums

def settle (sum : Vec3) : Vec3 :=
  let length := sum.length
  if 0 < length then sum / length else .unitY

def smoothNormals (m : Mesh) : Array Vec3 :=
  (m.faces.foldl (addFace m.positions) (Array.replicate m.positions.size .zero)).map settle

def computeNormals (m : Mesh) : Mesh := { m with normals := some m.smoothNormals }

def ensureNormals (m : Mesh) : Mesh :=
  match m.normals with
  | some ns => if ns.size = m.positions.size then m else m.computeNormals
  | none => m.computeNormals

def largestMagnitude (positions : Array Vec3) : Scalar :=
  positions.foldl (fun acc p => Scalar.larger acc p.abs.largestComponent) 0

def viewingSize : Scalar := 1.2

def recenterAndRescale (m : Mesh) (size : Scalar) : Mesh :=
  if m.positions.isEmpty then m
  else
    let center := m.center
    let moved := m.positions.map (· - center)
    let largest := largestMagnitude moved
    let scale := size / largest
    let positions := if 0 < largest then moved.map (fun p : Vec3 => p * scale) else moved
    { m with positions, bounds := .ofPoints positions.toList }

theorem addFaceSize (positions sums : Array Vec3) (f : Face) :
    (addFace positions sums f).size = sums.size := by
  unfold addFace
  split <;> simp

theorem smoothNormalsSize (m : Mesh) : m.smoothNormals.size = m.positions.size := by
  have sums : ∀ (fs : List Face) (acc : Array Vec3),
      (fs.foldl (addFace m.positions) acc).size = acc.size := by
    intro fs
    induction fs with
    | nil => intro acc; rfl
    | cons f rest ih => intro acc; rw [List.foldl_cons,ih,addFaceSize]
  simp [smoothNormals,sums]

end Mesh
end Sightline
