import Sightline.Scalar
/-! Numbers written in decimal. A whole number is digits with an optional sign. A scalar may have a
point, before or after which digits can be missing but not both, and a decimal exponent; it can also
be a spelled infinity or NaN in any mixture of cases. What is read is the nearest number of single
precision, halves to even. A written number has no blanks, no separators and no other base. -/
namespace Sightline.Text

def digitsValue (digits : List Char) : Nat :=
  digits.foldl (fun n c => 10 * n + (c.toNat - 48)) 0

def natural? (cs : List Char) : Option Nat :=
  if cs.isEmpty || !cs.all Char.isDigit then none else some (digitsValue cs)

def splitSign : List Char → Bool × List Char
  | '-' :: rest => (true,rest)
  | '+' :: rest => (false,rest)
  | cs => (false,cs)

def whole? (cs : List Char) : Option Int :=
  let (negative,digits) := splitSign cs
  (natural? digits).map fun n => if negative then -(n : Int) else n

def long? (cs : List Char) : Option Int :=
  match whole? cs with
  | some n => if -9223372036854775808 ≤ n ∧ n < 9223372036854775808 then some n else none
  | none => none

structure Numeral where
  digits : List Char
  exponent : Int
  deriving DecidableEq, Repr

namespace Numeral

def exponent? : List Char → Option Int
  | [] => some 0
  | c :: rest => if c = 'e' ∨ c = 'E' then whole? rest else none

def ofText? (cs : List Char) : Option Numeral :=
  let before := cs.takeWhile Char.isDigit
  let rest := cs.dropWhile Char.isDigit
  let (fraction,rest) := match rest with
    | '.' :: rest => (rest.takeWhile Char.isDigit,rest.dropWhile Char.isDigit)
    | rest => ([],rest)
  if before.isEmpty && fraction.isEmpty then none
  else (exponent? rest).map fun e => ⟨before ++ fraction,e - fraction.length⟩

def order (n : Numeral) : Int := (n.digits.dropWhile (· == '0')).length + n.exponent

/-- The nearest scalar. From 10 ^ 39 on everything is infinite, and below 10 ^ -46 everything is
zero, so that no greater power of ten is ever computed. -/
def toScalar (n : Numeral) : Scalar :=
  if digitsValue n.digits = 0 ∨ n.order < -45 then 0
  else if n.order > 39 then 1 / 0
  else Float32.ofScientific (digitsValue n.digits) (n.exponent < 0) n.exponent.natAbs

end Numeral

def magnitude? (cs : List Char) : Option Scalar :=
  match String.ofList (cs.map Char.toLower) with
  | "inf" | "infinity" => some (1 / 0)
  | "nan" => some (0 / 0)
  | _ => (Numeral.ofText? cs).map Numeral.toScalar

def scalar? (cs : List Char) : Option Scalar :=
  let (negative,rest) := splitSign cs
  (magnitude? rest).map fun x => if negative then -x else x

end Sightline.Text
