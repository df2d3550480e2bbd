import Sightline.Box
/-! Box trees over numbered triangles. A leaf lists the triangles it holds in the order in which they
arrived; an inner node has two subtrees. A tree is only data: nothing forces its boxes to enclose
anything, and any kind of box will do. Its leaves from left to right are the view by which trees and
their layouts are compared. -/
namespace Sightline

inductive Tree (β : Type := Box) where
  | leaf (bounds : β) (triangles : List UInt32)
  | inner (bounds : β) (left right : Tree β)
  deriving DecidableEq, Repr

namespace Tree
variable {β γ : Type}

def bounds : Tree β → β
  | leaf b _ => b
  | inner b _ _ => b

def isLeaf : Tree β → Bool
  | leaf _ _ => true
  | inner _ _ _ => false

def nodeCount : Tree β → Nat
  | leaf _ _ => 1
  | inner _ l r => 1 + l.nodeCount + r.nodeCount

def triangleCount : Tree β → Nat
  | leaf _ ts => ts.length
  | inner _ l r => l.triangleCount + r.triangleCount

def depth : Tree β → Nat
  | leaf _ _ => 0
  | inner _ l r => 1 + max l.depth r.depth

def leaves : Tree β → List (List UInt32)
  | leaf _ ts => [ts]
  | inner _ l r => l.leaves ++ r.leaves

def triangles (t : Tree β) : List UInt32 := t.leaves.flatten

def map (f : β → γ) : Tree β → Tree γ
  | leaf b ts => .leaf (f b) ts
  | inner b l r => .inner (f b) (l.map f) (r.map f)

theorem trianglesInner (b : β) (l r : Tree β) :
    (inner b l r).triangles = l.triangles ++ r.triangles := by
  simp [triangles,leaves]

theorem trianglesLength (t : Tree β) : t.triangles.length = t.triangleCount := by
  induction t with
  | leaf b ts => simp [triangles,leaves,triangleCount]
  | inner b l r hl hr => rw [trianglesInner,List.length_append,hl,hr]; rfl

theorem nodeCountPositive (t : Tree β) : 0 < t.nodeCount := by
  cases t with
  | leaf b ts => exact Nat.zero_lt_one
  | inner b l r => simp only [nodeCount]; omega

@[simp] theorem mapNodeCount (f : β → γ) (t : Tree β) : (t.map f).nodeCount = t.nodeCount := by
  induction t with
  | leaf b ts => rfl
  | inner b l r hl hr => simp only [map,nodeCount,hl,hr]

@[simp] theorem mapDepth (f : β → γ) (t : Tree β) : (t.map f).depth = t.depth := by
  induction t with
  | leaf b ts => rfl
  | inner b l r hl hr => simp only [map,depth,hl,hr]

@[simp] theorem mapLeaves (f : β → γ) (t : Tree β) : (t.map f).leaves = t.leaves := by
  induction t with
  | leaf b ts => rfl
  | inner b l r hl hr => simp only [map,leaves,hl,hr]

@[simp] theorem mapTriangles (f : β → γ) (t : Tree β) : (t.map f).triangles = t.triangles :=
  congrArg List.flatten (t.mapLeaves f)

@[simp] theorem mapTriangleCount (f : β → γ) (t : Tree β) : (t.map f).triangleCount = t.triangleCount := by
  rw [← trianglesLength,mapTriangles,trianglesLength]

theorem mapBack {f : β → γ} {g : γ → β} (back : ∀ b, g (f b) = b) (t : Tree β) : (t.map f).map g = t := by
  induction t with
  | leaf b ts => simp only [map,back]
  | inner b l r hl hr => simp only [map,back,hl,hr]

end Tree
end Sightline
