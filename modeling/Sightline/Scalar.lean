/-! Single precision numbers as the tracer computes with them: every sum, product and quotient is
one rounded operation, in the order written. Core's binary32 supplies the arithmetic; this module
adds the choices that IEEE leaves open. A choice between two numbers ignores a NaN where it can,
and angles, bytes and sort keys have one fixed rule each. Nothing here widens or fuses. -/
namespace Sightline

abbrev Scalar := Float32

namespace Scalar

def ofWord (w : UInt32) : Scalar := Float32.ofBits w
def toWord (x : Scalar) : UInt32 := Float32.toBits x

def greatest : Scalar := ofWord 0x7f7fffff
def lowest : Scalar := ofWord 0xff7fffff
def infinity : Scalar := ofWord 0x7f800000

def smaller (a b : Scalar) : Scalar :=
  if Float32.isNaN a then b else if b < a then b else a

def larger (a b : Scalar) : Scalar :=
  if Float32.isNaN a then b else if a < b then b else a

theorem smallerCases (a b : Scalar) : smaller a b = a ∨ smaller a b = b := by
  unfold smaller
  split
  · exact .inr rfl
  · split
    · exact .inr rfl
    · exact .inl rfl

theorem largerCases (a b : Scalar) : larger a b = a ∨ larger a b = b := by
  unfold larger
  split
  · exact .inr rfl
  · split
    · exact .inr rfl
    · exact .inl rfl

def clampUnit (x : Scalar) : Scalar := smaller (larger x 0) 1

def toByte (x : Scalar) : UInt8 := Float32.toUInt8 (clampUnit x * 255)

def ofCount (n : Nat) : Scalar := n.toUInt64.toFloat32
def ofIndex (n : UInt32) : Scalar := n.toFloat32

def square (x : Scalar) : Scalar := x * x

def power32 (x : Scalar) : Scalar := square (square (square (square (square x))))

def radiansPerDegree : Scalar := ofWord 0x3c8efa35

def tangent (x : Scalar) : Scalar := (Float.tan (Float32.toFloat x)).toFloat32

/-- A sort key under which all numbers are ordered, minus zero just below zero. -/
def sortKey (x : Scalar) : Int :=
  let n := (toWord x).toNat
  if n < 2147483648 then n else 2147483647 - (n : Int)

end Scalar
end Sightline
