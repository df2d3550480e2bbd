import Sightline.Text.Blank
/-! The lines of a file. A line feed ends a line, and a carriage return in front of it counts as a blank
of the line. Each line is UTF-8 of its own, so a line that is not says nothing about the others. -/
namespace Sightline.Text

def lineBytes (bytes : List UInt8) : List (List UInt8) := cut (· == 10) bytes

def decode? (bytes : List UInt8) : Option (List Char) :=
  (String.fromUTF8? ⟨bytes.toArray⟩).map String.toList

def lines (bytes : List UInt8) : List (Option (List Char)) := (lineBytes bytes).map decode?

end Sightline.Text
