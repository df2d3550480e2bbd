import Sightline.Text.Lines
import Sightline.Text.Numeral
/-! Material libraries, of which only the names matter here: a model is divided where the material
changes. A library counts as a whole or not at all, so all its lines are checked all the same. Names
are numbered in the order of the libraries; a name that comes again stands for its last number. -/
namespace Sightline.Obj
open Text

namespace Material

def threeNumbers (args : List (List Char)) : Bool :=
  let numbers := (args.take 3).map scalar?
  numbers.length == 3 && numbers.all Option.isSome

def oneNumber : List (List Char) → Bool
  | w :: _ => (scalar? w).isSome
  | [] => false

def oneByte : List (List Char) → Bool
  | ('-' :: _) :: _ => false
  | w :: _ => match whole? w with
    | some n => decide (n < 256)
    | none => false
  | [] => false

def restOf (keyword line : List Char) : List Char := trim ((trim line).drop keyword.length)

def readLine (line : List Char) : Option (Option String) :=
  match words line with
  | [] => some none
  | keyword :: args =>
    let require (fine : Bool) : Option (Option String) := if fine then some none else none
    let rest := restOf keyword line
    match String.ofList keyword with
    | "newmtl" => if rest.isEmpty then none else some (some (String.ofList rest))
    | "Ka" => require (threeNumbers args)
    | "Kd" => require (threeNumbers args)
    | "Ks" => require (threeNumbers args)
    | "Ns" => require (oneNumber args)
    | "Ni" => require (oneNumber args)
    | "d" => require (oneNumber args)
    | "illum" => require (oneByte args)
    | "map_Ka" => require (!rest.isEmpty)
    | "map_Kd" => require (!rest.isEmpty)
    | "map_Ks" => require (!rest.isEmpty)
    | "map_Ns" => require (!rest.isEmpty)
    | "map_Bump" => require (!rest.isEmpty)
    | "map_bump" => require (!rest.isEmpty)
    | "bump" => require (!rest.isEmpty)
    | "map_d" => require (!rest.isEmpty)
    | _ => some none

def names? (bytes : List UInt8) : Option (List String) := do
  let found ← (lines bytes).mapM fun line => do readLine (← line)
  return found.filterMap id

def numberOf (known : List String) (name : String) : Option Nat :=
  (known.reverse.findIdx? (· == name)).map fun i => known.length - 1 - i

end Material
end Sightline.Obj
