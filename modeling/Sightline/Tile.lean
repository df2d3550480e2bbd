import Sightline.Scalar
import Sightline.Fault
/-! Cutting a picture into rectangular tiles. Tiles stand on an even grid, those at the right and lower
edges cut off, and are put in order of how far their centers are from the center of the picture;
tiles equally far away keep their reading order. Positions are words, so a grid that would step past
the largest word is a fault. -/
namespace Sightline

structure Tile where
  x : UInt32
  y : UInt32
  width : UInt32
  height : UInt32
  index : Nat
  deriving DecidableEq, Repr

namespace Tile

def standardSize : UInt32 := 64

def pixelCount (t : Tile) : Except Fault UInt32 := Fault.mulWords t.width t.height

def starts (size limit x : UInt32) (positive : 0 < size.toNat) : Except Fault (List UInt32) :=
  if _inside : x.toNat < limit.toNat then
    if _fits : x.toNat + size.toNat < 4294967296 then do
      let rest ← starts size limit (x + size) positive
      return x :: rest
    else .error .wordOverflow
  else .ok []
termination_by limit.toNat - x.toNat
decreasing_by
  simp only [UInt32.toNat_add]
  omega

def eccentricity (width height : UInt32) (t : Tile) : Scalar :=
  let x := Scalar.ofIndex t.x + Scalar.ofIndex t.width / 2 - Scalar.ofIndex width / 2
  let y := Scalar.ofIndex t.y + Scalar.ofIndex t.height / 2 - Scalar.ofIndex height / 2
  x * x + y * y

def row (size width height y : UInt32) (positive : 0 < size.toNat) : Except Fault (List Tile) := do
  let xs ← starts size width 0 positive
  return xs.map fun x => ⟨x,y,min size (width - x),min size (height - y),0⟩

def reading (size width height : UInt32) (positive : 0 < size.toNat) :
    Except Fault (List Tile) := do
  let ys ← starts size height 0 positive
  let rows ← ys.mapM fun y => row size width height y positive
  return rows.flatten

def outward (width height : UInt32) (ts : List Tile) : List Tile :=
  ts.mergeSort fun s t => decide (Scalar.sortKey (eccentricity width height s) ≤
    Scalar.sortKey (eccentricity width height t))

def number (ts : List Tile) : List Tile := ts.mapIdx fun i t => { t with index := i }

theorem sizePositive (size : UInt32) : 0 < (max size 1).toNat := by
  show 0 < (if size ≤ 1 then (1 : UInt32) else size).toNat
  split
  · decide
  · rename_i h
    simp only [UInt32.le_iff_toNat_le] at h
    simp at h
    omega

def grid (width height size : UInt32) : Except Fault (List Tile) := do
  let ts ← reading (max size 1) width height (sizePositive size)
  return number (outward width height ts)

end Tile
end Sightline
