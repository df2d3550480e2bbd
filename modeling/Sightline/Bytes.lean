/-! Words as bytes. A word is four bytes, in files of ours the least first; other formats want the
greatest first, or only the lower half. Reading and writing undo each other, so neither can lose a bit. -/
namespace Sightline.Bytes

def ofWord (w : UInt32) : List UInt8 :=
  [w.toNat.toUInt8,(w.toNat / 256).toUInt8,(w.toNat / 65536).toUInt8,(w.toNat / 16777216).toUInt8]

def toWord (a b c d : UInt8) : UInt32 :=
  (a.toNat + 256 * b.toNat + 65536 * c.toNat + 16777216 * d.toNat).toUInt32

theorem toWordOfWord (w : UInt32) : toWord w.toNat.toUInt8 (w.toNat / 256).toUInt8
    (w.toNat / 65536).toUInt8 (w.toNat / 16777216).toUInt8 = w := by
  have bound := w.toNat_lt
  apply UInt32.toNat_inj.mp
  simp [toWord]
  omega

theorem ofWordToWord (a b c d : UInt8) : ofWord (toWord a b c d) = [a,b,c,d] := by
  have ha := a.toNat_lt
  have hb := b.toNat_lt
  have hc := c.toNat_lt
  have hd := d.toNat_lt
  simp only [ofWord,toWord,List.cons.injEq,and_true,← UInt8.toNat_inj]
  simp
  omega

def wordsOnto (acc : Array UInt32) : List UInt8 → Array UInt32
  | a :: b :: c :: d :: rest => wordsOnto (acc.push (toWord a b c d)) rest
  | _ => acc

theorem wordsOntoBytes (words : List UInt32) (acc : Array UInt32) :
    wordsOnto acc (words.flatMap ofWord) = acc ++ words.toArray := by
  induction words generalizing acc with
  | nil => simp [wordsOnto]
  | cons w rest ih =>
    simp only [List.flatMap_cons,ofWord,List.cons_append,List.nil_append,wordsOnto,toWordOfWord]
    rw [ih]
    simp

def ofHalf (w : UInt32) : List UInt8 := (ofWord w).take 2

def ofWordReversed (w : UInt32) : List UInt8 := (ofWord w).reverse

theorem ofWordLength (w : UInt32) : (ofWord w).length = 4 := rfl

end Sightline.Bytes
