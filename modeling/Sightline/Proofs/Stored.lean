import Sightline.Hierarchy
import Sightline.Scalar.Order

/-! Numbers survive being stored as words. A number is packed back into the three fields that it was
unpacked from; there is one NaN, so that comes back as well. Points and the boxes of nodes follow. -/
namespace Sightline

namespace Scalar
open Float.Model (Format UnpackedFloat)
open Float.Model.UnpackedFloat (Sign)

theorem packedFields (s : Sign) (e : BitVec 8) (m : BitVec 23) :
    (@UnpackedFloat.packComponents Format.binary32 s e m).toNat =
      s.toBitVec.toNat * 2147483648 + e.toNat * 8388608 + m.toNat := by
  show ((s.toBitVec ++ e) ++ m).toNat = _
  rw [BitVec.toNat_append,← Nat.shiftLeft_add_eq_or_of_lt m.isLt,BitVec.toNat_append,
    ← Nat.shiftLeft_add_eq_or_of_lt e.isLt,Nat.shiftLeft_eq,Nat.shiftLeft_eq]
  omega

theorem signBit (n : Nat) : (signOf n).toBitVec.toNat = n / 2147483648 % 2 := by
  unfold signOf
  split
  · rename_i plus
    rw [plus]
    rfl
  · rename_i minus
    rw [Nat.mod_two_not_eq_zero.mp minus]
    rfl

theorem packedFinite {s : Sign} {m : Nat} {e : Int} {positive : 0 < m} (low : -149 ≤ e) (high : e < 105)
    (shape : m < 8388608 ∧ e = -149 ∨ 8388608 ≤ m ∧ m < 16777216) :
    (UnpackedFloat.pack Format.binary32 (.finite s m e positive)).toNat =
      s.toBitVec.toNat * 2147483648 + ((e + 149) * 8388608 + m).toNat := by
  have biased : (e + Format.binary32.exponentBias + Format.binary32.mantissaBitsWithoutImplicit).toNat =
      (e + 150).toNat := by
    show (e + 127 + 23).toNat = _
    omega
  unfold UnpackedFloat.pack
  dsimp only
  rw [biased,if_neg (by show ¬256 ≤ _; omega)]
  rcases shape with ⟨small,rfl⟩ | ⟨large,bound⟩
  · have short : ¬m.log2 + 1 = Format.binary32.mantissaBits := by
      have := (Nat.log2_lt (Nat.ne_of_gt positive)).mpr (show m < 2 ^ 23 from small)
      show ¬m.log2 + 1 = 24
      omega
    rw [if_neg short,packedFields]
    simp only [BitVec.toNat_ofNat]
    omega
  · have full : m.log2 + 1 = Format.binary32.mantissaBits := by
      have bits : m.log2 = 23 := (Nat.log2_eq_iff (Nat.ne_of_gt positive)).mpr ⟨large,bound⟩
      rw [bits]
      rfl
    rw [if_pos full,packedFields]
    simp only [BitVec.toNat_ofNat]
    omega

theorem packedNumber {n : Nat} (word : n < 4294967296) (number : decoded n ≠ .notANumber) :
    (UnpackedFloat.pack Format.binary32 (decoded n)).toNat = n := by
  have sign := signBit n
  rcases numberShapes number with ⟨same,low⟩ | ⟨same,low⟩ | ⟨m,e,positive,same,shape⟩
  · rw [same]
    show (@UnpackedFloat.packComponents Format.binary32 _ (-1#8) 0#23).toNat = n
    rw [packedFields,sign]
    simp only [show (-1#8).toNat = 255 from rfl,BitVec.toNat_zero]
    omega
  · rw [same]
    show (@UnpackedFloat.packComponents Format.binary32 _ 0#8 0#23).toNat = n
    rw [packedFields,sign]
    simp only [BitVec.toNat_zero]
    omega
  · rw [same,packedFinite (by omega) (by omega) (by omega),sign]
    omega

theorem nanFields {b : BitVec 32} (nan : UnpackedFloat.unpack Format.binary32 b = .notANumber) :
    @UnpackedFloat.unpackExponent Format.binary32 b = -1#8 ∧
      @UnpackedFloat.unpackMantissa Format.binary32 b ≠ 0#23 := by
  unfold UnpackedFloat.unpack at nan
  dsimp only at nan
  by_cases top : @UnpackedFloat.unpackExponent Format.binary32 b = -1#8
  · rw [if_pos top] at nan
    refine ⟨top,fun blank => ?_⟩
    rw [if_pos blank] at nan
    contradiction
  · rw [if_neg top] at nan
    by_cases bottom : @UnpackedFloat.unpackExponent Format.binary32 b = 0#8
    · rw [if_pos bottom] at nan
      by_cases blank : @UnpackedFloat.unpackMantissa Format.binary32 b = 0#23
      · rw [dif_pos blank] at nan
        contradiction
      · rw [dif_neg blank] at nan
        contradiction
    · rw [if_neg bottom] at nan
      contradiction

theorem wordsUnpacked (x : Scalar) : ofWord (toWord x) = x := by
  obtain ⟨⟨w,valid⟩⟩ := x
  have back : UnpackedFloat.pack Format.binary32 (UnpackedFloat.unpack Format.binary32 w.toBitVec) =
      w.toBitVec := by
    by_cases nan : UnpackedFloat.unpack Format.binary32 w.toBitVec = .notANumber
    · obtain ⟨top,filled⟩ := nanFields nan
      rw [nan]
      exact (valid.eq_packedNaN top filled).symm
    · rw [unpackDecoded] at nan ⊢
      exact BitVec.eq_of_toNat_eq (packedNumber w.toNat_lt nan)
  refine congrArg Float32.ofModel ?_
  show (⟨UInt32.ofBitVec (UnpackedFloat.pack Format.binary32 _),_⟩ : Float32.Model) = ⟨w,valid⟩
  congr

end Scalar

theorem StoredPoint.unstored (v : Vec3) : (ofVec3 v).toVec3 = v := by
  obtain ⟨x,y,z⟩ := v
  simp only [ofVec3,toVec3,Scalar.wordsUnpacked]

theorem StoredBox.unstored (b : Box) : (ofBox b).toBox = b := by
  obtain ⟨bottom,top⟩ := b
  simp only [ofBox,toBox,StoredPoint.unstored]

theorem Tree.storedBack (t : Tree) : t.stored.unstored = t := mapBack StoredBox.unstored t

end Sightline
