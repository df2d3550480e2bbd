import Sightline.Triangle
import Sightline.Tile
/-! Pictures in linear color, row by row from the top. A pixel is found by its place in the rows, with
no separate check of the column, so a column past the right edge means a pixel of a later row. Colors
of a tile are written one after the other; a fault stops the writing and keeps what was written. -/
namespace Sightline

structure Image where
  width : UInt32
  height : UInt32
  pixels : Array Color
  deriving DecidableEq, Repr

namespace Image

def blank (width height : UInt32) : Image :=
  ⟨width,height,Array.replicate (width.toNat * height.toNat) .zero⟩

def offset (im : Image) (x y : UInt32) : Nat := y.toNat * im.width.toNat + x.toNat

def locate (im : Image) (x y : UInt32) : Except Fault Nat :=
  if im.offset x y < im.pixels.size then .ok (im.offset x y) else .error (.noPixel x y)

def put (im : Image) (place : Nat) (color : Color) : Image :=
  { im with pixels := im.pixels.setIfInBounds place color }

def get (im : Image) (x y : UInt32) : Except Fault Color := do
  let place ← im.locate x y
  return im.pixels.getD place .zero

def set (im : Image) (x y : UInt32) (color : Color) : Except Fault Image := do
  let place ← im.locate x y
  return im.put place color

def locateInTile (im : Image) (t : Tile) (position : Nat) : Except Fault Nat := do
  let i := position.toUInt32
  if t.width = 0 then throw .emptyTile
  let x ← Fault.addWords t.x (i % t.width)
  let y ← Fault.addWords t.y (i / t.width)
  im.locate x y

structure Written where
  image : Image
  fault : Option Fault

def writeFrom (t : Tile) (im : Image) (position : Nat) : List Color → Written
  | [] => ⟨im,none⟩
  | color :: rest =>
    match im.locateInTile t position with
    | .error fault => ⟨im,some fault⟩
    | .ok place => writeFrom t (im.put place color) (position + 1) rest

def writeTile (im : Image) (t : Tile) (colors : List Color) : Written := writeFrom t im 0 colors

def Written.complete (w : Written) : Except Fault Image :=
  match w.fault with
  | none => .ok w.image
  | some fault => .error fault

def rgba (c : Color) : List UInt8 := [Scalar.toByte c.x,Scalar.toByte c.y,Scalar.toByte c.z,255]

def toRgba (im : Image) : List UInt8 := im.pixels.toList.flatMap rgba

theorem putSize (im : Image) (place : Nat) (color : Color) :
    (im.put place color).pixels.size = im.pixels.size := by
  simp [put]

end Image
end Sightline
