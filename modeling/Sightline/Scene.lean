import Sightline.Mesh
/-! A scene: one pool of vertices, one list of triangles over it, point lights, and the name of the
file it came from. Triangles are referred to by their place in the list, so the lists only ever grow
at their ends. A triangle that cannot be made is a fault and leaves the scene as it was. -/
namespace Sightline

structure Light where
  position : Vec3
  deriving DecidableEq, Repr

structure Scene where
  vertices : Array Vertex
  triangles : Array Triangle
  lights : Array Light
  source : Option String
  deriving DecidableEq, Repr

namespace Scene

def empty : Scene := ⟨#[],#[],#[],none⟩

def vertexPool (m : Mesh) : Array Vertex :=
  m.positions.zipWith Vertex.mk (m.normals.getD #[])

def ofMesh (m : Mesh) (color : Color) : Scene :=
  let vertices := vertexPool m.ensureNormals
  let made := (Face.ofIndices m.indices.toList).filterMap fun f =>
    (Triangle.ofFace vertices f color false).toOption
  ⟨vertices,made.toArray,#[],none⟩

def withSource (s : Scene) (path : String) : Scene := { s with source := some path }
def withLight (s : Scene) (light : Light) : Scene := { s with lights := s.lights.push light }

def addVertex (s : Scene) (v : Vertex) : Scene × UInt32 :=
  ({ s with vertices := s.vertices.push v },s.vertices.size.toUInt32)

def addTriangle (s : Scene) (face : Face) (color : Color) (twoSided : Bool) :
    Except Fault (Scene × UInt32) := do
  let t ← Triangle.ofFace s.vertices face color twoSided
  return ({ s with triangles := s.triangles.push t },s.triangles.size.toUInt32)

def bounds (s : Scene) : Box := .ofBoxes (s.triangles.toList.map Triangle.bounds)

end Scene
end Sightline
