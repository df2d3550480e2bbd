import Sightline.Fault
import Sightline.Tree
/-! The flat form of a box tree: an array of fixed size nodes with the root in front, and a list of
triangle numbers that the leaves cut into ranges. A node is eight words, six for its box and two
that hold either the places of its children or the range of a leaf; the top bit of the first of the
two tells which. The words are kept as they are, so a node read from a file is written back bit for
bit, and any words at all make a node. Whether the nodes form a tree is for a separate check. -/
namespace Sightline

structure StoredPoint where
  x : UInt32
  y : UInt32
  z : UInt32
  deriving DecidableEq, Repr

namespace StoredPoint

def ofVec3 (v : Vec3) : StoredPoint := ⟨Scalar.toWord v.x,Scalar.toWord v.y,Scalar.toWord v.z⟩
def toVec3 (p : StoredPoint) : Vec3 := ⟨Scalar.ofWord p.x,Scalar.ofWord p.y,Scalar.ofWord p.z⟩

end StoredPoint

structure StoredBox where
  bottom : StoredPoint
  top : StoredPoint
  deriving DecidableEq, Repr

namespace StoredBox

def ofBox (b : Box) : StoredBox := ⟨.ofVec3 b.bottom,.ofVec3 b.top⟩
def toBox (b : StoredBox) : Box := ⟨b.bottom.toVec3,b.top.toVec3⟩

end StoredBox

namespace Tree

def stored (t : Tree) : Tree StoredBox := t.map StoredBox.ofBox
def unstored (t : Tree StoredBox) : Tree := t.map StoredBox.toBox

end Tree

structure Node where
  bottom : StoredPoint
  top : StoredPoint
  word0 : UInt32
  word1 : UInt32
  deriving DecidableEq, Repr

namespace Node

inductive Kind where
  | inner (left right : UInt32)
  | leaf (start count : UInt32)
  deriving DecidableEq, Repr

def leafFlag : UInt32 := 0x80000000

def leafLimit : Nat := 2147483647

def kind (n : Node) : Kind :=
  if n.word0 < leafFlag then .inner n.word0 n.word1 else .leaf n.word1 (n.word0 - leafFlag)

def stored (n : Node) : StoredBox := ⟨n.bottom,n.top⟩
def bounds (n : Node) : Box := n.stored.toBox

def store (b : StoredBox) (word0 word1 : UInt32) : Node := ⟨b.bottom,b.top,word0,word1⟩

def inner (b : StoredBox) (left right : UInt32) : Node := store b left right

def leaf (b : StoredBox) (start count : UInt32) : Node := store b (leafFlag + count) start

def blank : Node := ⟨⟨0,0,0⟩,⟨0,0,0⟩,0,0⟩

theorem kindInner {left : UInt32} (b : StoredBox) (right : UInt32) (h : left < leafFlag) :
    (inner b left right).kind = .inner left right := if_pos h

theorem kindFlagged {left : UInt32} (b : StoredBox) (right : UInt32) (h : leafFlag ≤ left) :
    (inner b left right).kind = .leaf right (left - leafFlag) := if_neg (UInt32.not_lt.mpr h)

theorem kindLeaf {count : UInt32} (b : StoredBox) (start : UInt32) (h : count < leafFlag) :
    (leaf b start count).kind = .leaf start count := by
  have h : count.toNat < 2147483648 := h
  have flagged : ¬leafFlag + count < leafFlag := by
    simp only [UInt32.lt_iff_toNat_lt,leafFlag,UInt32.toNat_add]
    simp
    omega
  show (if leafFlag + count < leafFlag then _ else _) = _
  rw [if_neg flagged]
  show Kind.leaf start (leafFlag + count - leafFlag) = _
  rw [UInt32.add_comm,UInt32.add_sub_cancel]

def held (n : Node) : Nat :=
  match n.kind with
  | .leaf _ count => count.toNat
  | .inner _ _ => 0

end Node

structure Hierarchy where
  nodes : Array Node
  order : Array UInt32
  deriving DecidableEq, Repr

namespace Hierarchy

def stackCapacity : Nat := 32

def node? (h : Hierarchy) (index : UInt32) : Option Node := h.nodes[index.toNat]?

def nodeCount (h : Hierarchy) : Nat := h.nodes.size
def triangleCount (h : Hierarchy) : Nat := h.order.size

def rootIsLeaf (h : Hierarchy) : Bool :=
  match (h.nodes[0]?).map Node.kind with
  | some (.leaf _ _) => true
  | _ => false

def range? (h : Hierarchy) (start count : UInt32) : Option (List UInt32) :=
  if start.toNat + count.toNat ≤ h.order.size then
    some (h.order.extract start.toNat (start.toNat + count.toNat)).toList
  else none

/- Following children from a node. A walk down that visits more nodes than there are has met one of
them twice and would go on forever; then there is no depth and no tree. -/

def depthFrom (h : Hierarchy) : Nat → UInt32 → Option Nat
  | 0, _ => none
  | levels + 1, index =>
    match (h.node? index).map Node.kind with
    | some (.inner left right) => do
      let l ← depthFrom h levels left
      let r ← depthFrom h levels right
      return 1 + max l r
    | _ => some 0

def depth (h : Hierarchy) : Except Fault Nat :=
  match h.depthFrom (h.nodes.size + 1) 0 with
  | some d => .ok d
  | none => .error .endlessWalk

def storedFrom (h : Hierarchy) : Nat → UInt32 → Option (Tree StoredBox)
  | 0, _ => none
  | levels + 1, index => do
    let n ← h.node? index
    match n.kind with
    | .inner left right =>
      let l ← storedFrom h levels left
      let r ← storedFrom h levels right
      return .inner n.stored l r
    | .leaf start count =>
      let ts ← h.range? start count
      return .leaf n.stored ts

def treeFrom (h : Hierarchy) (levels : Nat) (index : UInt32) : Option Tree :=
  (h.storedFrom levels index).map Tree.unstored

def stored? (h : Hierarchy) : Option (Tree StoredBox) := h.storedFrom h.nodes.size 0
def tree? (h : Hierarchy) : Option Tree := h.treeFrom h.nodes.size 0

def alike (g h : Hierarchy) : Bool :=
  let sameNumber (a b : UInt32) : Bool := Scalar.ofWord a == Scalar.ofWord b
  let samePoint (p q : StoredPoint) : Bool :=
    sameNumber p.x q.x && sameNumber p.y q.y && sameNumber p.z q.z
  let sameNode (m n : Node) : Bool := samePoint m.bottom n.bottom && samePoint m.top n.top &&
    m.word0 == n.word0 && m.word1 == n.word1
  g.nodes.size == h.nodes.size && (g.nodes.zip h.nodes).all (fun p => sameNode p.1 p.2) &&
    g.order == h.order

end Hierarchy
end Sightline
