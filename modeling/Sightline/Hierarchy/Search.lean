import Sightline.Hierarchy
import Sightline.Triangle
/-! Which triangle a ray meets. Nodes wait on a stack of bounded room; a box that the ray does not
cross is dropped with all below it, an inner node is replaced by its children with the left one on
top, and the triangles of a leaf are tried in order. What becomes of a triangle that is met is up to
the question asked: the closest of all is kept, or the first one close enough ends the search. Nodes
that were not checked can lead out of the arrays, past the room, or round in circles, each of which
is a fault. -/
namespace Sightline

inductive Culling where
  | backfaces
  | disabled
  deriving DecidableEq, Repr

structure Query where
  ray : Ray
  exclude : Option UInt32
  culling : Culling
  deriving DecidableEq, Repr

structure Hit where
  triangle : UInt32
  point : Vec3
  distanceSquared : Scalar
  edges : EdgeDistances
  deriving DecidableEq, Repr

namespace Triangle

def nudge : Scalar := 1e-5

def crossing (t : Triangle) (r : Ray) : Option (Vec3 × EdgeDistances) :=
  let slope := t.plane.normal.dot r.direction
  if slope == 0 then none
  else
    let along := (t.plane.offset - t.plane.normal.dot r.origin) / slope
    if along ≤ nudge then none
    else
      let point := r.pointAt along
      let edges := t.edgeDistances point
      if edges.inside then some (point,edges) else none

def culled (t : Triangle) (q : Query) : Bool :=
  q.culling == .backfaces && !t.twoSided && t.facesAway q.ray

def hit (t : Triangle) (q : Query) (index : UInt32) : Option Hit :=
  if t.culled q then none
  else
    (t.crossing q.ray).map fun (point,edges) =>
      ⟨index,point,q.ray.origin.distanceSquared point,edges⟩

end Triangle

namespace Query

def attempt (q : Query) (triangles : Array Triangle) (index : UInt32) : Except Fault (Option Hit) :=
  if q.exclude = some index then .ok none
  else (Fault.look triangles index .noTriangle).map fun t => t.hit q index

end Query

namespace Hierarchy

def scan (triangles : Array Triangle) (q : Query) (onHit : β → Hit → ForInStep β) (found : β) :
    List UInt32 → Except Fault (ForInStep β)
  | [] => .ok (.yield found)
  | index :: rest =>
    match q.attempt triangles index with
    | .error fault => .error fault
    | .ok none => scan triangles q onHit found rest
    | .ok (some hit) =>
      match onHit found hit with
      | .done found => .ok (.done found)
      | .yield found => scan triangles q onHit found rest

def walk (h : Hierarchy) (triangles : Array Triangle) (q : Query) (onHit : β → Hit → ForInStep β) :
    Nat → List UInt32 → β → Except Fault β
  | _, [], found => .ok found
  | 0, _ :: _, _ => .error .endlessWalk
  | steps + 1, index :: waiting, found =>
    match h.node? index with
    | none => .error (.noNode index)
    | some node =>
      if node.bounds.meets q.ray then
        match node.kind with
        | .inner left right =>
          if waiting.length + 2 ≤ stackCapacity then
            walk h triangles q onHit steps (left :: right :: waiting) found
          else .error .stackFull
        | .leaf start count =>
          match h.range? start count with
          | none => .error (.leafPastEnd start count)
          | some range =>
            match scan triangles q onHit found range with
            | .error fault => .error fault
            | .ok (.done found) => .ok found
            | .ok (.yield found) => walk h triangles q onHit steps waiting found
      else walk h triangles q onHit steps waiting found

/-- A bound on the stacks that can occur: lists of at most 32 of the words stored in the nodes, or of
the root. A search that takes more steps meets some stack twice, and then it never ends. -/
def walkLimit (h : Hierarchy) : Nat := Nat.pow (2 * h.nodes.size + 2) 33

def search (h : Hierarchy) (triangles : Array Triangle) (q : Query) (onHit : β → Hit → ForInStep β)
    (found : β) : Except Fault β :=
  h.walk triangles q onHit h.walkLimit [0] found

def nearer (best : Option Hit) (hit : Hit) : Option Hit :=
  let bound := match best with
    | some b => b.distanceSquared
    | none => Scalar.greatest
  if hit.distanceSquared < bound then some hit else best

def closestHit (h : Hierarchy) (triangles : Array Triangle) (q : Query) :
    Except Fault (Option Hit) :=
  h.search triangles q (fun best hit => .yield (nearer best hit)) none

def occluded (h : Hierarchy) (triangles : Array Triangle) (q : Query) (light : Vec3) :
    Except Fault Bool :=
  let limit := q.ray.origin.distanceSquared light
  h.search triangles q (fun _ hit => if hit.distanceSquared < limit then .done true else .yield false)
    false

end Hierarchy
end Sightline
