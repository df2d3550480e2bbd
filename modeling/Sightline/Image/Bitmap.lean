import Sightline.Image.Png
/-! Pictures as Windows bitmaps. Two headers of fixed length are followed by the rows from the bottom
up, four bytes a pixel: blue, green, red and cover. Rows of whole words need no padding. -/
namespace Sightline.Image.Bitmap

def headerLength : Nat := 122

def masks : List UInt32 := [0x00ff0000,0x0000ff00,0x000000ff,0xff000000]

def colorSpace : UInt32 := 0x73524742

def fileHeader (size : Nat) : List UInt8 :=
  [0x42,0x4d] ++ [size.toUInt32,0,headerLength.toUInt32].flatMap Bytes.ofWord

def imageHeader (im : Image) (size : Nat) : List UInt8 :=
  [108,im.width,im.height].flatMap Bytes.ofWord ++ Bytes.ofHalf 1 ++ Bytes.ofHalf 32 ++
    ([3,size.toUInt32,2835,2835,0,0] ++ masks ++ [colorSpace] ++ List.replicate 12 0).flatMap
      Bytes.ofWord

def bgra (c : Color) : List UInt8 := [Scalar.toByte c.z,Scalar.toByte c.y,Scalar.toByte c.x,255]

def encode (im : Image) : List UInt8 :=
  let size := 4 * im.width.toNat * im.height.toNat
  fileHeader (headerLength + size) ++ imageHeader im size ++
    im.rows.reverse.flatMap fun row => row.flatMap bgra

end Sightline.Image.Bitmap
