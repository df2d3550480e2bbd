/-! Blank characters and the words between them. A character is blank when Unicode gives it the
property White_Space; that is more than the blanks of ASCII. Cutting a text at separators keeps all
pieces, also the empty ones between two separators; words are the pieces that are not empty. -/
namespace Sightline.Text

def blankRanges : List (Nat × Nat) :=
  [(0x09,0x0d),(0x20,0x20),(0x85,0x85),(0xa0,0xa0),(0x1680,0x1680),(0x2000,0x200a),(0x2028,0x2029),
    (0x202f,0x202f),(0x205f,0x205f),(0x3000,0x3000)]

def isBlank (c : Char) : Bool :=
  blankRanges.any fun r => decide (r.1 ≤ c.toNat) && decide (c.toNat ≤ r.2)

def joinFirst (x : α) : List (List α) → List (List α)
  | [] => [[x]]
  | piece :: pieces => (x :: piece) :: pieces

def cut (separates : α → Bool) (xs : List α) : List (List α) :=
  xs.foldr (fun x pieces => if separates x then [] :: pieces else joinFirst x pieces) [[]]

def words (cs : List Char) : List (List Char) := (cut isBlank cs).filter (!·.isEmpty)

def trimStart (cs : List Char) : List Char := cs.dropWhile isBlank

def trim (cs : List Char) : List Char := (trimStart (trimStart cs).reverse).reverse

def after (separator : Char) (cs : List Char) : List Char := (cs.dropWhile (· != separator)).drop 1

end Sightline.Text
