import Sightline.Camera
import Sightline.Image
import Sightline.Shading
/-! A whole picture, tile by tile. The pixels of a tile are traced row by row; the finished tiles are
written into the picture in the order of the grid. -/
namespace Sightline

namespace Tile

def steps (t : Tile) : List (UInt32 × UInt32) :=
  (List.range t.height.toNat).flatMap fun y =>
    (List.range t.width.toNat).map fun x => (x.toUInt32,y.toUInt32)

def renderPixel (t : Tile) (camera : Camera) (s : Shading) (step : UInt32 × UInt32) :
    Except Fault Color := do
  let x ← Fault.addWords t.x step.1
  let y ← Fault.addWords t.y step.2
  s.primary (camera.rayAt x y)

def render (t : Tile) (camera : Camera) (s : Shading) : Except Fault (List Color) := do
  let _ ← t.pixelCount
  t.steps.mapM (t.renderPixel camera s)

end Tile

namespace Image

def addTile (camera : Camera) (s : Shading) (im : Image) (t : Tile) : Except Fault Image := do
  let colors ← t.render camera s
  (im.writeTile t colors).complete

def render (camera : Camera) (s : Shading) : Except Fault Image := do
  let tiles ← Tile.grid camera.width camera.height s.settings.tileSize
  tiles.foldlM (addTile camera s) (blank camera.width camera.height)

end Image
end Sightline
