import Sightline.Box
import Sightline.Fault
/-! Triangles ready to be hit. A triangle refers to three vertices by number and carries all that
does not depend on the ray: its plane, the planes through its three edges at right angles to it, its
box and its center. These are computed once, from the positions at that time; a point of the plane
lies in the triangle when its distances from the three edge planes are not negative. -/
namespace Sightline

abbrev Color := Vec3

structure Vertex where
  position : Vec3
  normal : Vec3
  deriving DecidableEq, Repr

structure Face where
  a : UInt32
  b : UInt32
  c : UInt32
  deriving DecidableEq, Repr

structure Plane where
  normal : Vec3
  offset : Scalar
  deriving DecidableEq, Repr

namespace Plane

def through (normal p : Vec3) : Plane := ⟨normal,normal.dot p⟩

def distance (f : Plane) (p : Vec3) : Scalar := f.normal.dot p - f.offset

end Plane

structure EdgeDistances where
  ab : Scalar
  bc : Scalar
  ca : Scalar
  deriving DecidableEq, Repr

def EdgeDistances.inside (d : EdgeDistances) : Bool :=
  decide (0 ≤ d.ab) && decide (0 ≤ d.bc) && decide (0 ≤ d.ca)

structure Triangle where
  face : Face
  center : Vec3
  plane : Plane
  edgeAB : Plane
  edgeBC : Plane
  edgeCA : Plane
  bounds : Box
  twoSided : Bool
  color : Color
  deriving DecidableEq, Repr

namespace Triangle

def longer (v w : Vec3) : Vec3 := if w.length > v.length then w else v

/-- Each pair of edges gives a normal; the longest is the most accurate one for a sliver. A triangle
without area ends up with a zero normal. -/
def normalOf (ab bc ca : Vec3) : Vec3 :=
  (longer (longer (ab.cross bc) (bc.cross ca)) (ca.cross ab)).unitOrZero

def ofPoints (a b c : Vec3) (face : Face) (color : Color) (twoSided : Bool) : Triangle :=
  let ab := b - a
  let bc := c - b
  let ca := a - c
  let normal := normalOf ab bc ca
  { face
    center := (a + b + c) / (3 : Scalar)
    plane := .through normal a
    edgeAB := .through (normal.cross ab).unitOrZero a
    edgeBC := .through (normal.cross bc).unitOrZero b
    edgeCA := .through (normal.cross ca).unitOrZero c
    bounds := ⟨(a.smaller b).smaller c,(a.larger b).larger c⟩
    twoSided
    color }

def ofFace (vertices : Array Vertex) (face : Face) (color : Color) (twoSided : Bool) :
    Except Fault Triangle := do
  let a ← Fault.look vertices face.a .noVertex
  let b ← Fault.look vertices face.b .noVertex
  let c ← Fault.look vertices face.c .noVertex
  return ofPoints a.position b.position c.position face color twoSided

def edgeDistances (t : Triangle) (p : Vec3) : EdgeDistances :=
  ⟨t.edgeAB.distance p,t.edgeBC.distance p,t.edgeCA.distance p⟩

def normal (t : Triangle) : Vec3 := t.plane.normal

def boundsCenter (t : Triangle) : Vec3 := t.bounds.centroid

def facesAway (t : Triangle) (r : Ray) : Bool := decide ((r.origin - t.center).dot t.normal < 0)

end Triangle

def Face.InRange (f : Face) (count : Nat) : Prop :=
  f.a.toNat < count ∧ f.b.toNat < count ∧ f.c.toNat < count

instance (f : Face) (count : Nat) : Decidable (f.InRange count) := by
  unfold Face.InRange; infer_instance

theorem Triangle.ofFaceOk {vertices : Array Vertex} {face : Face}
    (ha : face.a.toNat < vertices.size) (hb : face.b.toNat < vertices.size)
    (hc : face.c.toNat < vertices.size) (color : Color) (twoSided : Bool) :
    ofFace vertices face color twoSided = .ok (ofPoints vertices[face.a.toNat].position
      vertices[face.b.toNat].position vertices[face.c.toNat].position face color twoSided) := by
  unfold ofFace
  rw [Fault.lookInside _ ha,Fault.lookInside _ hb,Fault.lookInside _ hc]
  rfl

end Sightline
