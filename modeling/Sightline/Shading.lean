import Sightline.Hierarchy.Search
import Sightline.Scene
/-! The color seen along a ray. A surface that is met shows its own color dimly, and brighter for every
light that it faces and that nothing hides, with a highlight where the light is mirrored towards the
eye. On top of that comes what is seen in the mirror direction and through the surface, each weighted
by its rate, down to a given depth; a ray that meets nothing shows the background. Terms are added in
the order in which they are described. -/
namespace Sightline

structure Settings where
  maxDepth : Nat
  shadows : Bool
  reflections : Bool
  reflectionRate : Scalar
  refractions : Bool
  refractionRate : Scalar
  smoothNormals : Bool
  ambient : Scalar
  diffuse : Scalar
  specular : Scalar
  background : Color
  tileSize : UInt32
  deriving DecidableEq, Repr

def Settings.standard : Settings where
  maxDepth := 3
  shadows := true
  reflections := true
  reflectionRate := 0.375
  refractions := false
  refractionRate := 0.58
  smoothNormals := true
  ambient := 96 / 255
  diffuse := 128 / 255
  specular := 192 / 255
  background := .zero
  tileSize := 64

structure Shading where
  scene : Scene
  hierarchy : Hierarchy
  settings : Settings
  eye : Vec3

structure Surface where
  triangle : Triangle
  index : UInt32
  point : Vec3
  normal : Vec3
  deriving DecidableEq, Repr

namespace Shading

/-- Vertex normals weighted by the area of the part triangle opposite each vertex, which is the
distance from the opposite edge times the length of that edge. Without an area, or where the normals
cancel out, it is the normal of the plane. -/
def interpolated (t : Triangle) (edges : EdgeDistances) (a b c : Vertex) : Vec3 :=
  let area := ((b.position - a.position).cross (c.position - b.position)).length
  if area == 0 then t.normal
  else
    let ab := edges.ab * a.position.distance b.position
    let bc := edges.bc * b.position.distance c.position
    let ca := edges.ca * c.position.distance a.position
    let normal := (a.normal * (bc / area) + b.normal * (ca / area) + c.normal * (ab / area)).unitOrZero
    if normal.isZero then t.normal else normal

def normalAt (s : Shading) (t : Triangle) (edges : EdgeDistances) : Except Fault Vec3 :=
  if s.settings.smoothNormals then do
    let a ← Fault.look s.scene.vertices t.face.a .noVertex
    let b ← Fault.look s.scene.vertices t.face.b .noVertex
    let c ← Fault.look s.scene.vertices t.face.c .noVertex
    return interpolated t edges a b c
  else .ok t.normal

def surfaceOf (s : Shading) (hit : Hit) : Except Fault Surface := do
  let t ← Fault.look s.scene.triangles hit.triangle .noTriangle
  let normal ← s.normalAt t hit.edges
  return ⟨t,hit.triangle,hit.point,normal⟩

def brighten (s : Settings) (eye : Vec3) (spot : Surface) (toLight : Vec3) (color : Color) : Color :=
  let facing := spot.normal.dot toLight
  if facing < 0 then color
  else
    let color := color + spot.triangle.color * (s.diffuse * facing)
    let toEye := (eye - spot.point).unitOrZero
    let shine := (toLight + toEye).unitOrZero.dot spot.normal
    if shine > 0 then color + .splat (s.specular * Scalar.power32 shine) else color

def hidden (s : Shading) (culling : Culling) (spot : Surface) (light : Light) (toLight : Vec3) :
    Except Fault Bool :=
  if s.settings.shadows then
    s.hierarchy.occluded s.scene.triangles ⟨⟨spot.point,toLight⟩,some spot.index,culling⟩ light.position
  else .ok false

def addLight (s : Shading) (culling : Culling) (spot : Surface) (color : Color) (light : Light) :
    Except Fault Color := do
  let toLight := (light.position - spot.point).unitOrZero
  if ← s.hidden culling spot light toLight then return color
  return brighten s.settings s.eye spot toLight color

def direct (s : Shading) (culling : Culling) (spot : Surface) : Except Fault Color :=
  s.scene.lights.toList.foldlM (s.addLight culling spot) (spot.triangle.color * s.settings.ambient)

def backward (r : Ray) (normal : Vec3) : Scalar := -(r.direction.dot normal)

def reflected (r : Ray) (normal : Vec3) : Vec3 :=
  (r.direction + normal * (2 * backward r normal)).unitOrZero

def mediaRatio (depth : Nat) : Scalar :=
  let odd := Scalar.ofCount (depth % 2)
  (1 + odd) / (2 + odd)

def refracted (r : Ray) (normal : Vec3) (depth : Nat) : Option Vec3 :=
  let c := backward r normal
  let n := mediaRatio depth
  let k := 1 - n * n * (1 - c * c)
  if 0 ≤ k then some (r.direction * n + normal * (n * c - Float32.sqrt k)).unitOrZero else none

def colorWithin (s : Shading) : Nat → Nat → Query → Except Fault Color
  | 0, _, _ => .ok .zero
  | levels + 1, depth, q => do
    match ← s.hierarchy.closestHit s.scene.triangles q with
    | none => return s.settings.background
    | some hit =>
      let spot ← s.surfaceOf hit
      let follow (direction : Vec3) (culling : Culling) : Except Fault Color :=
        s.colorWithin levels (depth + 1) ⟨⟨hit.point,direction⟩,some hit.triangle,culling⟩
      let color ← s.direct q.culling spot
      let color ← if s.settings.reflections then do
          let seen ← follow (reflected q.ray spot.normal) .backfaces
          pure (color + seen * s.settings.reflectionRate)
        else pure color
      if s.settings.refractions then
        match refracted q.ray spot.normal depth with
        | none => return color
        | some direction =>
          let seen ← follow direction .disabled
          return color + seen * s.settings.refractionRate
      else return color

def colorAlong (s : Shading) (q : Query) (depth : Nat) : Except Fault Color :=
  s.colorWithin (s.settings.maxDepth - depth) depth q

def primary (s : Shading) (r : Ray) : Except Fault Color :=
  s.colorAlong ⟨r,none,.backfaces⟩ 0

end Shading
end Sightline
