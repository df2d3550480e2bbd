import Sightline.Hierarchy
/-! Why a hierarchy cannot be had. A flaw is what a check found wrong with given nodes; a build error
is what keeps a scene from getting a hierarchy at all. Each has one wording. -/
namespace Sightline

inductive Flaw where
  | noNodes
  | orderLength (length triangles : Nat)
  | ownChild (node : UInt32)
  | childPastEnd (node child : UInt32) (length : Nat)
  | reachedTwice (node : UInt32)
  | leafPastEnd (node : UInt32) (start stop length : Nat)
  | leafOverlap (node : UInt32) (slot : Nat)
  | uncovered (held length : Nat)
  | unreached (visits length : Nat)
  | listedTwice (triangle : UInt32)
  | notATriangle (triangle : UInt32)
  deriving DecidableEq, Repr

def Flaw.message : Flaw → String
  | noNodes => "no nodes"
  | orderLength length triangles =>
    "index list has " ++ toString length ++ " entries, scene has " ++ toString triangles ++
      " triangles"
  | ownChild node => "node " ++ toString node.toNat ++ " is its own child"
  | childPastEnd node child length =>
    "node " ++ toString node.toNat ++ " points at " ++ toString child.toNat ++
      ", past the end of " ++ toString length ++ " nodes"
  | reachedTwice node => "node " ++ toString node.toNat ++ " is reachable twice"
  | leafPastEnd node start stop length =>
    "leaf " ++ toString node.toNat ++ " covers " ++ toString start ++ ".." ++ toString stop ++
      ", index list has " ++ toString length ++ " entries"
  | leafOverlap node slot =>
    "leaf " ++ toString node.toNat ++ " overlaps another leaf at index slot " ++ toString slot
  | uncovered held length =>
    "leaves cover " ++ toString held ++ " of " ++ toString length ++ " index slots"
  | unreached visits length =>
    toString visits ++ " of " ++ toString length ++ " nodes reachable from the root"
  | listedTwice triangle => "triangle " ++ toString triangle.toNat ++ " listed twice"
  | notATriangle triangle => "triangle " ++ toString triangle.toNat ++ " out of range"

inductive Mismatch where
  | room
  | nodes
  | triangles (held : Nat)
  deriving DecidableEq, Repr

def Mismatch.message (found wanted : Nat) : Mismatch → String
  | room => "node array sized for " ++ toString wanted ++ " nodes overflowed"
  | nodes => "placed " ++ toString found ++ " nodes, tree has " ++ toString wanted
  | triangles held =>
    "leaves hold " ++ toString held ++ " triangles, index list has " ++ toString found ++
      ", tree has " ++ toString wanted

inductive BuildError where
  | emptyScene
  | tooDeep (depth limit : Nat)
  | mismatch (part : Mismatch) (found wanted : Nat)
  | leafOverflow (count : Nat)
  | tooManyTriangles (count : Nat)
  | invalid (flaw : Flaw)
  deriving DecidableEq, Repr

def BuildError.message : BuildError → String
  | emptyScene => "Cannot build a BVH over an empty scene"
  | tooDeep depth limit =>
    "BVH depth " ++ toString depth ++ " exceeds the traversal stack (" ++ toString limit ++
      "); raise BVH_STACK_SIZE"
  | mismatch part found wanted => "BVH compaction mismatch: " ++ part.message found wanted
  | leafOverflow count =>
    "Leaf holds " ++ toString count ++ " triangles, more than a 31-bit count can encode"
  | tooManyTriangles count =>
    "Scene has " ++ toString count ++ " triangles, more than a BVH can index"
  | invalid flaw => "Invalid BVH: " ++ flaw.message

end Sightline
