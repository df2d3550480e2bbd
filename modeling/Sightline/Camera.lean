import Sightline.Box
/-! A pinhole camera that sends one ray through the center of every pixel. The resolution, the place of
the eye and the angle of view are set first; aiming the camera then fixes where the first pixel lies
and how far apart pixels are, and rays are made from that alone. A camera that was never aimed still
makes rays, all from the origin. -/
namespace Sightline

structure Camera where
  width : UInt32
  height : UInt32
  lookFrom : Vec3
  lookAt : Vec3
  up : Vec3
  fieldOfView : Scalar
  eye : Vec3
  firstPixel : Vec3
  stepRight : Vec3
  stepDown : Vec3
  deriving DecidableEq, Repr

namespace Camera

def standard : Camera where
  width := 800
  height := 600
  lookFrom := .zero
  lookAt := ⟨0,0,-1⟩
  up := .unitY
  fieldOfView := 28
  eye := .zero
  firstPixel := .zero
  stepRight := .zero
  stepDown := .zero

def withResolution (c : Camera) (width height : UInt32) : Camera := { c with width, height }

def withPosition (c : Camera) (lookFrom lookAt up : Vec3) : Camera :=
  { c with lookFrom, lookAt, up }

def withFieldOfView (c : Camera) (degrees : Scalar) : Camera := { c with fieldOfView := degrees }

def halfHeight (c : Camera) : Scalar :=
  Scalar.tangent (c.fieldOfView * Scalar.radiansPerDegree / 2)

def aim (c : Camera) : Camera :=
  let height := 2 * c.halfHeight
  let width := height * (Scalar.ofIndex c.width / Scalar.ofIndex (max c.height 1))
  let back := (c.lookFrom - c.lookAt).unit
  let right := (c.up.cross back).unit
  let above := back.cross right
  let across := right * width
  let downward := above * (-height)
  let stepRight := across / Scalar.ofIndex c.width
  let stepDown := downward / Scalar.ofIndex c.height
  let corner := c.lookFrom - back - across / (2 : Scalar) - downward / (2 : Scalar)
  { c with
    eye := c.lookFrom
    firstPixel := corner + (stepRight + stepDown) * (0.5 : Scalar)
    stepRight
    stepDown }

def rayAt (c : Camera) (x y : UInt32) : Ray :=
  let pixel := c.firstPixel + c.stepRight * Scalar.ofIndex x + c.stepDown * Scalar.ofIndex y
  ⟨c.eye,(pixel - c.eye).unit⟩

end Camera
end Sightline
