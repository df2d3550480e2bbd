import Sightline.Disk
import Sightline.Image.Bitmap
import Sightline.Path
/-! Which format a picture is saved in follows from the ending of the file name, in any case. The format
is chosen before the file is made, and the file is made before the picture is encoded: a name without a
known ending leaves no file, and a picture without pixels an empty one. -/
namespace Sightline.Image

inductive Format where
  | png
  | bitmap
  deriving DecidableEq, Repr

namespace Format

def ofEnding? (ending : String) : Option Format :=
  match String.ofList (ending.toList.map Char.toLower) with
  | "png" => some .png
  | "bmp" => some .bitmap
  | _ => none

def ofPath? (path : String) : Option Format := (Path.ending? path).bind ofEnding?

def encode? (format : Format) (im : Image) : Option (List UInt8) :=
  if im.width = 0 ∨ im.height = 0 then none
  else
    match format with
    | png => some (Png.encode im)
    | bitmap => some (Bitmap.encode im)

end Format

def save [Monad m] (disk : Disk m) (im : Image) (path : String) : m Bool :=
  match Format.ofPath? path with
  | none => pure false
  | some format => do
    let bytes := format.encode? im
    let written ← disk.write path (bytes.getD [])
    return written.toBool && bytes.isSome

end Sightline.Image
