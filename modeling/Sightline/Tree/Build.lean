import Sightline.Tree
import Sightline.Tree.Split
/-! Building a tree from the top down. A set of fewer than four triangles becomes a leaf, and so does
a set for which no division pays; any other set is divided in two and each half is built one level
deeper. Both halves hold at least two triangles, so the work ends. While leaves are finished from left
to right, a report is due whenever another whole percent of the triangles has found its place. -/
namespace Sightline
namespace Tree

def leafThreshold : Nat := 4

def ofItems (work : List Item) : Tree := .leaf (Item.boundsOf work) (work.map Item.triangle)

def join (l r : Tree) : Tree := .inner (l.bounds.union r.bounds) l r

def buildAt (work : List Item) (depth : Nat) : Tree :=
  if work.length < leafThreshold then ofItems work
  else
    let best := Split.find work (Item.boundsOf work) depth
    if found : best.isSome then
      let s := best.get found
      join (buildAt (s.left work) (depth + 1)) (buildAt (s.right work) (depth + 1))
    else ofItems work
termination_by work.length
decreasing_by
  · exact (Split.foundShrinks (Option.some_get found).symm).1
  · exact (Split.foundShrinks (Option.some_get found).symm).2

def build (work : List Item) : Tree := buildAt work 0

theorem buildAtLeaf {work : List Item} {depth : Nat}
    (h : work.length < leafThreshold ∨ Split.find work (Item.boundsOf work) depth = none) :
    buildAt work depth = ofItems work := by
  rw [buildAt]
  rcases h with h | h
  · rw [if_pos h]
  · simp [h]

theorem buildAtInner {work : List Item} {depth : Nat} {s : Split} (h : ¬ work.length < leafThreshold)
    (found : Split.find work (Item.boundsOf work) depth = some s) :
    buildAt work depth =
      join (buildAt (s.left work) (depth + 1)) (buildAt (s.right work) (depth + 1)) := by
  rw [buildAt,if_neg h]
  simp [found]
end Tree

/-! Progress is told as fractions of the number of triangles. -/
namespace Progress

def fraction (placed total : Nat) : Float := placed.toUInt64.toFloat / total.toUInt64.toFloat

/-- Reports for the sizes of the leaves still to be finished, when `placed` triangles have found their
place and `last` whole percents were reported. -/
def reports (total placed last : Nat) : List Nat → List Float
  | [] => []
  | size :: rest =>
    let placed := placed + size
    let percent := placed * 100 / total
    if last < percent then fraction placed total :: reports total placed percent rest
    else reports total placed last rest

def ofTree (total : Nat) (t : Tree) : List Float :=
  reports total 0 0 (t.leaves.map List.length) ++ [1]

end Progress
end Sightline
