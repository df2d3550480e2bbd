import Sightline.Hierarchy.Flaw
import Sightline.Tree.Build
/-! Laying a tree out flat. There is one slot for every node of the tree. Every node takes the next free
slot before its children do, so a left child always follows its parent, and is written there once its
children are; the leaves append their triangles from left to right. What is laid out is counted again at
the end: a tree too large for its words to be told apart is refused, and so is one too deep to be
searched. -/
namespace Sightline.Hierarchy

structure Draft (room : Nat) where
  nodes : Vector Node room
  order : Array UInt32
  next : Nat
  deepest : Nat
  deriving DecidableEq, Repr

def wordLimit : Nat := 4294967295

namespace Draft
variable {room : Nat}

def blank (room : Nat) : Draft room := ⟨.replicate room .blank,#[],0,0⟩

def reserve (d : Draft room) (depth : Nat) : Except BuildError (Fin room × Draft room) :=
  if free : d.next < room then
    .ok (⟨d.next,free⟩,{ d with next := d.next + 1, deepest := max d.deepest depth })
  else .error (.mismatch .room d.next room)

def fill (d : Draft room) (slot : Fin room) (n : Node) : Draft room :=
  { d with nodes := d.nodes.set slot.val n slot.isLt }

def place (d : Draft room) (depth : Nat) : Tree StoredBox → Except BuildError (UInt32 × Draft room)
  | .leaf b ts => do
    let (slot,d) ← d.reserve depth
    if ts.length > Node.leafLimit then throw (.leafOverflow ts.length)
    let start := d.order.size.toUInt32
    let d := { d with order := d.order ++ ts.toArray }
    return (slot.val.toUInt32,d.fill slot (.leaf b start ts.length.toUInt32))
  | .inner b l r => do
    let (slot,d) ← d.reserve depth
    let (left,d) ← d.place (depth + 1) l
    let (right,d) ← d.place (depth + 1) r
    return (slot.val.toUInt32,d.fill slot (.inner b left right))

def held (d : Draft room) : Nat := d.nodes.toList.foldl (fun n node => n + node.held) 0

end Draft

def ofStored (t : Tree StoredBox) : Except BuildError Hierarchy := do
  if t.triangleCount > wordLimit ∨ t.nodeCount > wordLimit then
    throw (.tooManyTriangles t.triangleCount)
  let (_,d) ← (Draft.blank t.nodeCount).place 0 t
  if d.next ≠ t.nodeCount then
    throw (.mismatch .nodes d.next t.nodeCount)
  if d.held ≠ d.order.size ∨ d.order.size ≠ t.triangleCount then
    throw (.mismatch (.triangles d.held) d.order.size t.triangleCount)
  if d.deepest ≥ stackCapacity then
    throw (.tooDeep d.deepest stackCapacity)
  return ⟨d.nodes.toArray,d.order⟩

def ofTree (t : Tree) : Except BuildError Hierarchy := ofStored t.stored

structure Built where
  result : Except BuildError Hierarchy
  progress : List Float

def build (triangles : List Triangle) : Built :=
  if triangles.isEmpty then ⟨.error .emptyScene,[]⟩
  else if triangles.length > Node.leafLimit then ⟨.error (.tooManyTriangles triangles.length),[]⟩
  else
    let t := Tree.build (Item.ofTriangles triangles)
    ⟨ofTree t,Progress.ofTree triangles.length t⟩

end Sightline.Hierarchy
