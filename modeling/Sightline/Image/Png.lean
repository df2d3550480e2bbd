import Sightline.Bytes
import Sightline.Image
/-! Pictures as PNG files. A file is a signature and three chunks, each of which carries its length and
a checksum. The colors are eight bit RGBA, every row stands behind a zero that says it is not
filtered, and the rows are stored without compression. -/
namespace Sightline.Image

def rows (im : Image) : List (List Color) :=
  let width := im.width.toNat
  (List.range im.height.toNat).map fun y =>
    (im.pixels.extract (y * width) (y * width + width)).toList

namespace Png

def shiftOut (crc : UInt32) : UInt32 :=
  if crc &&& 1 = 1 then (crc >>> 1) ^^^ 0xedb88320 else crc >>> 1

def crcByte (crc : UInt32) (b : UInt8) : UInt32 :=
  (List.range 8).foldl (fun crc _ => shiftOut crc) (crc ^^^ b.toUInt32)

def crc (bytes : List UInt8) : UInt32 := bytes.foldl crcByte 0xffffffff ^^^ 0xffffffff

def adler (bytes : List UInt8) : UInt32 :=
  let sums := bytes.foldl (fun (a,b) x =>
    let a := (a + x.toUInt32) % 65521
    (a,(b + a) % 65521)) ((1 : UInt32),(0 : UInt32))
  sums.2 * 65536 + sums.1

def chunk (name : String) (data : List UInt8) : List UInt8 :=
  let body := name.toUTF8.toList ++ data
  Bytes.ofWordReversed data.length.toUInt32 ++ body ++ Bytes.ofWordReversed (crc body)

def blockLimit : Nat := 65535

def block (last : UInt8) (data : List UInt8) : List UInt8 :=
  let length := data.length.toUInt32
  last :: Bytes.ofHalf length ++ Bytes.ofHalf (0xffff - length) ++ data

def blocks (data : List UInt8) : List UInt8 :=
  if data.length ≤ blockLimit then block 1 data
  else block 0 (data.take blockLimit) ++ blocks (data.drop blockLimit)
termination_by data.length
decreasing_by
  simp only [List.length_drop,blockLimit] at *
  omega

def stored (data : List UInt8) : List UInt8 :=
  [0x78,0x01] ++ blocks data ++ Bytes.ofWordReversed (adler data)

def signature : List UInt8 := [0x89,0x50,0x4e,0x47,0x0d,0x0a,0x1a,0x0a]

def header (im : Image) : List UInt8 :=
  Bytes.ofWordReversed im.width ++ Bytes.ofWordReversed im.height ++ [8,6,0,0,0]

def encode (im : Image) : List UInt8 :=
  let scanlines := im.rows.flatMap fun row => 0 :: row.flatMap rgba
  signature ++ chunk "IHDR" (header im) ++ chunk "IDAT" (stored scanlines) ++ chunk "IEND" []

end Png
end Sightline.Image
