import Sightline.Triangle
import Sightline.Scalar.Order
/-! Where to divide a set of boxes in two. On each axis that is not flat, planes are sampled on an
even grid that gets coarser with the depth in the tree; a plane sends every box whose center lies
below it to the left. A plane that leaves one side with at most one box is not considered. The
others cost, for each side, its half area times its number of boxes, and the first of the cheapest
is taken if it is cheaper than not dividing at all. -/
namespace Sightline

structure Item where
  bounds : Box
  center : Vec3
  triangle : UInt32
  deriving DecidableEq, Repr

namespace Item

def ofTriangle (t : Triangle) (index : Nat) : Item := ⟨t.bounds,t.boundsCenter,index.toUInt32⟩

def ofTriangles (ts : List Triangle) : List Item := ts.mapIdx fun i t => ofTriangle t i

def boundsOf (work : List Item) : Box := .ofBoxes (work.map Item.bounds)

def cost (work : List Item) : Scalar := (boundsOf work).halfArea * Scalar.ofCount work.length

end Item

structure Split where
  axis : Axis
  value : Scalar
  deriving DecidableEq, Repr

namespace Split

def goesLeft (s : Split) (item : Item) : Bool := decide (item.center.component s.axis < s.value)

def left (s : Split) (work : List Item) : List Item := work.filter s.goesLeft
def right (s : Split) (work : List Item) : List Item := work.filter (!s.goesLeft ·)

theorem lengths (s : Split) (work : List Item) :
    (s.left work).length + (s.right work).length = work.length := by
  induction work with
  | nil => rfl
  | cons item rest ih =>
    unfold left right at *
    cases h : s.goesLeft item <;> simp [h] <;> omega

def cost (work : List Item) (s : Split) : Option Scalar :=
  let l := s.left work
  let r := s.right work
  if l.length ≤ 1 ∨ r.length ≤ 1 then none else some (Item.cost l + Item.cost r)

theorem costPriced {work : List Item} {s : Split} {c : Scalar} : cost work s = some c ↔
    2 ≤ (s.left work).length ∧ 2 ≤ (s.right work).length ∧
      c = (Item.boundsOf (s.left work)).halfArea * Scalar.ofCount (s.left work).length +
        (Item.boundsOf (s.right work)).halfArea * Scalar.ofCount (s.right work).length := by
  unfold cost
  dsimp only
  split
  · exact ⟨fun none => (nomatch none),fun priced => by omega⟩
  · exact ⟨fun same => ⟨by omega,by omega,(Option.some.inj same).symm⟩,fun priced => congrArg some priced.2.2.symm⟩

theorem costShrinks {work : List Item} {s : Split} {c : Scalar} (priced : cost work s = some c) :
    2 ≤ (s.left work).length ∧ 2 ≤ (s.right work).length := by
  obtain ⟨left,right,_⟩ := costPriced.mp priced
  exact ⟨left,right⟩

/-- How far a number is from the end of the order; a NaN is past the end. -/
def headroom (x : Scalar) : Nat := bif Float32.isNaN x then 0 else 4294967297 - Scalar.rank x

theorem headroomNext {x limit next : Scalar} (below : x < limit) (grows : ¬next ≤ x) :
    headroom next < headroom x := by
  have number := (Scalar.ltNumbers below).1
  have top := Scalar.rankBound x
  cases nan : Float32.isNaN next with
  | true => simp only [headroom,nan,number,cond_true,cond_false]; omega
  | false =>
    have := Scalar.rankLt (Scalar.ltOfNotLe number nan grows)
    simp only [headroom,nan,number,cond_false]
    omega

def samples (step limit x : Scalar) : List Scalar :=
  if _below : x < limit then
    x :: (if _grows : x + step ≤ x then [] else samples step limit (x + step))
  else []
termination_by headroom x
decreasing_by exact headroomNext _below _grows

theorem samplesMore {step limit x : Scalar} (below : x < limit) (grows : ¬x + step ≤ x) :
    samples step limit x = x :: samples step limit (x + step) := by
  rw [samples,dif_pos below,dif_neg grows]

theorem samplesLost {step limit x : Scalar} (below : x < limit) (lost : x + step ≤ x) :
    samples step limit x = [x] := by
  rw [samples,dif_pos below,dif_pos lost]

def flatness : Scalar := 1e-4
def gridSize : Scalar := 1024

def grid (start stop : Scalar) (depth : Nat) : List Scalar :=
  if Float32.abs (stop - start) < flatness then []
  else
    let step := (stop - start) / (gridSize / (Scalar.ofCount depth + 1))
    samples step (stop - step) (start + step)

def candidates (bounds : Box) (depth : Nat) : List Split :=
  Axis.all.flatMap fun a =>
    (grid (bounds.bottom.component a) (bounds.top.component a) depth).map (mk a)

structure Best where
  cost : Scalar
  split : Option Split
  deriving DecidableEq, Repr

def consider (work : List Item) (best : Best) (s : Split) : Best :=
  match cost work s with
  | some c => if c < best.cost then ⟨c,some s⟩ else best
  | none => best

def undivided (work : List Item) (bounds : Box) : Best :=
  ⟨Scalar.ofCount work.length * bounds.halfArea,none⟩

def find (work : List Item) (bounds : Box) (depth : Nat) : Option Split :=
  ((candidates bounds depth).foldl (consider work) (undivided work bounds)).split

theorem consideredCost {work : List Item} {best : Best} {s t : Split}
    (known : best.split = some t → ∃ c, cost work t = some c)
    (h : (consider work best s).split = some t) : ∃ c, cost work t = some c := by
  unfold consider at h
  split at h
  · rename_i c priced
    split at h
    · cases Option.some.inj h
      exact ⟨c,priced⟩
    · exact known h
  · exact known h

theorem foldedCost {work : List Item} {best : Best} {t : Split} (ss : List Split)
    (known : best.split = some t → ∃ c, cost work t = some c)
    (h : (ss.foldl (consider work) best).split = some t) : ∃ c, cost work t = some c := by
  induction ss generalizing best with
  | nil => exact known h
  | cons s rest ih => exact ih (consideredCost known) h

theorem foundCost {work : List Item} {bounds : Box} {depth : Nat} {s : Split}
    (h : find work bounds depth = some s) : ∃ c, cost work s = some c :=
  foldedCost _ (fun none => by contradiction) h

theorem foundShrinks {work : List Item} {bounds : Box} {depth : Nat} {s : Split}
    (h : find work bounds depth = some s) :
    (s.left work).length < work.length ∧ (s.right work).length < work.length := by
  obtain ⟨c,priced⟩ := foundCost h
  have sides := costShrinks priced
  have all := s.lengths work
  omega

end Split
end Sightline
