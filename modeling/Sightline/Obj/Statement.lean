import Sightline.Text.Blank
import Sightline.Text.Numeral
import Sightline.Vec3
/-! One line of an OBJ file. Its first word says what the line is about; a line without a word, or with
a word not listed here, says nothing. Numbers are read with the line, while the references of an
element stay as they are written, because what they mean depends on the lines before. Of two things
wrong with a line the one further to the left is reported. -/
namespace Sightline

inductive ObjError where
  | openFailed
  | unreadable
  | position
  | zeroWeight
  | vertexColor
  | texcoord
  | normal
  | element
  | material
  | polygon
  | positionRange
  | texcoordRange
  | normalRange
  | colorRange
  deriving DecidableEq, Repr

def ObjError.message : ObjError → String
  | openFailed => "OBJ error: open file failed"
  | unreadable => "OBJ error: read error"
  | position => "OBJ error: position parse error"
  | zeroWeight => "OBJ error: scaling (w) by zero"
  | vertexColor => "OBJ error: color parse error (too many or too few components)"
  | texcoord => "OBJ error: texcoord parse error"
  | normal => "OBJ error: normal parse error"
  | element => "OBJ error: face parse error"
  | material => "OBJ error: material parse error"
  | polygon => "OBJ error: invalid polygon"
  | positionRange => "OBJ error: face vertex index out of bounds"
  | texcoordRange => "OBJ error: face texcoord index out of bounds"
  | normalRange => "OBJ error: face normal index out of bounds"
  | colorRange => "OBJ error: face vertex color index out of bounds"

namespace Obj
open Text

abbrev Word := List Char

structure Reference where
  position : Option Int
  texcoord : Option Int
  normal : Option Int
  deriving DecidableEq, Repr

def Reference.ofWord? (w : Word) : Option Reference := do
  let numbers ← (cut (· == '/') w).mapM fun part =>
    if part.isEmpty then some none else (long? part).map some
  if (numbers.drop 3).any Option.isSome then none
  else some ⟨numbers[0]?.join,numbers[1]?.join,numbers[2]?.join⟩

inductive Statement where
  | position (point : Vec3) (colors : Nat)
  | texcoord
  | normal (direction : Vec3)
  | element (corners : List Reference)
  | group
  | library (name : String)
  | material (name : String)
  | silent
  deriving DecidableEq, Repr

namespace Statement

def vec3? : List Word → Option Vec3
  | x :: y :: z :: _ => do return ⟨← scalar? x,← scalar? y,← scalar? z⟩
  | _ => none

/-- A weight divides the position. Of three color components those before the first that is not a
number are kept. -/
def readPosition (args : List Word) : Except ObjError Statement :=
  match vec3? args, args.drop 3 with
  | none, _ => .error .position
  | some p, [] => .ok (.position p 0)
  | some p, [w] =>
    match scalar? w with
    | none => .error .position
    | some w => if w == 0 then .error .zeroWeight else .ok (.position (p / w) 0)
  | some p, [r,g,b] =>
    .ok (.position p (([r,g,b].map scalar?).takeWhile Option.isSome).length)
  | some _, _ => .error .vertexColor

def readTexcoord : List Word → Except ObjError Statement
  | u :: v :: _ => if (scalar? u).isSome && (scalar? v).isSome then .ok .texcoord else .error .texcoord
  | _ => .error .texcoord

def readNormal (args : List Word) : Except ObjError Statement :=
  match vec3? args with
  | some n => .ok (.normal n)
  | none => .error .normal

def readElement (args : List Word) : Except ObjError Statement :=
  match args.mapM Reference.ofWord? with
  | some corners => .ok (.element corners)
  | none => .error .element

def nameIn (line : Word) : String := String.ofList (trim (after ' ' line))

def readMaterial (line : Word) : Except ObjError Statement :=
  let name := nameIn line
  if name == "" then .error .material else .ok (.material name)

def ofLine (line : Word) : Except ObjError Statement :=
  match words line with
  | [] => .ok .silent
  | first :: args =>
    match String.ofList first with
    | "v" => readPosition args
    | "vt" => readTexcoord args
    | "vn" => readNormal args
    | "f" => readElement args
    | "l" => readElement args
    | "o" => .ok .group
    | "g" => .ok .group
    | "mtllib" => .ok (.library (nameIn line))
    | "usemtl" => readMaterial line
    | _ => .ok .silent

end Statement
end Obj
end Sightline
