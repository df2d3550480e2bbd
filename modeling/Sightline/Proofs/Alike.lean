import Sightline.Proofs.Extremes

/-! Numbers that differ in nothing but the sign of a zero. Sums, differences and products do not tell them
apart, nor do comparisons and the choices made by comparing; a quotient only asks for one and the same divisor,
because a division by zero keeps the sign. So what is computed from such numbers again differs at most in that. -/
namespace Sightline.Scalar
open Float.Model (Format UnpackedFloat)
open Float.Model.UnpackedFloat (Sign)

/-- The same number, or zeros of either sign; there is one NaN. -/
def Alike (x y : Scalar) : Prop := x = y ∨ (x == 0) = true ∧ (y == 0) = true

def Near (u v : UnpackedFloat) : Prop := u = v ∨ (∃ s, u = .zero s) ∧ ∃ t, v = .zero t

section
variable {x y z x' y' : Scalar}

theorem zeroIff : (x == 0) = true ↔ ∃ s, x.toModel.unpack = .zero s := by
  have zero : (0 : Scalar).toModel.unpack = .zero .positive := rfl
  show (x.toModel.unpack.compare (0 : Scalar).toModel.unpack == some .eq) = true ↔ _
  rw [zero]
  cases x.toModel.unpack with
  | infinity s => cases s <;> exact ⟨fun same => absurd same Bool.false_ne_true,fun found => nomatch found⟩
  | notANumber => exact ⟨fun same => absurd same Bool.false_ne_true,fun found => nomatch found⟩
  | zero s => exact ⟨fun _ => ⟨s,rfl⟩,fun _ => rfl⟩
  | finite s m e positive =>
    cases s <;> exact ⟨fun same => absurd same Bool.false_ne_true,fun found => nomatch found⟩

theorem nearUnpacked (h : Alike x y) : Near x.toModel.unpack y.toModel.unpack := by
  rcases h with same | ⟨zeroX,zeroY⟩
  · exact .inl (same ▸ rfl)
  · exact .inr ⟨zeroIff.mp zeroX,zeroIff.mp zeroY⟩

theorem nearPacked {u v : UnpackedFloat} (h : Near u v) :
    Alike (.ofModel (.pack u)) (.ofModel (.pack v)) := by
  have packed (s : Sign) : ((.ofModel (.pack (.zero s)) : Scalar) == 0) = true := by
    cases s <;> decide +kernel
  rcases h with same | ⟨⟨s,rfl⟩,⟨t,rfl⟩⟩
  · exact .inl (same ▸ rfl)
  · exact .inr ⟨packed s,packed t⟩

theorem alikeSelf (x : Scalar) : Alike x x := .inl rfl

theorem Alike.trans (h : Alike x y) (k : Alike y z) : Alike x z := by
  rcases h with rfl | ⟨zeroX,zeroY⟩
  · exact k
  · rcases k with rfl | ⟨_,zeroZ⟩
    · exact .inr ⟨zeroX,zeroY⟩
    · exact .inr ⟨zeroX,zeroZ⟩

theorem Alike.places (h : Alike x y) : Float32.isNaN x = Float32.isNaN y ∧ rank x = rank y := by
  rcases h with rfl | ⟨zeroX,zeroY⟩
  · exact ⟨rfl,rfl⟩
  · have numberX := leNumbers (sameIff.mp zeroX).1
    have numberY := leNumbers (sameIff.mp zeroY).1
    rw [beqIff numberX.1 numberX.2] at zeroX
    rw [beqIff numberY.1 numberY.2] at zeroY
    exact ⟨numberX.1.trans numberY.1.symm,zeroX.trans zeroY.symm⟩

theorem Alike.lt (h : Alike x x') (k : Alike y y') : x < y ↔ x' < y' := by
  obtain ⟨nanX,rankX⟩ := h.places
  obtain ⟨nanY,rankY⟩ := k.places
  constructor
  · intro below
    obtain ⟨numberX,numberY⟩ := ltNumbers below
    rw [ltIff numberX numberY,rankX,rankY] at below
    exact (ltIff (nanX ▸ numberX) (nanY ▸ numberY)).mpr below
  · intro below
    obtain ⟨numberX,numberY⟩ := ltNumbers below
    rw [ltIff numberX numberY,← rankX,← rankY] at below
    exact (ltIff (nanX.trans numberX) (nanY.trans numberY)).mpr below

theorem Alike.le (h : Alike x x') (k : Alike y y') : x ≤ y ↔ x' ≤ y' := by
  obtain ⟨nanX,rankX⟩ := h.places
  obtain ⟨nanY,rankY⟩ := k.places
  constructor
  · intro below
    obtain ⟨numberX,numberY⟩ := leNumbers below
    rw [leIff numberX numberY,rankX,rankY] at below
    exact (leIff (nanX ▸ numberX) (nanY ▸ numberY)).mpr below
  · intro below
    obtain ⟨numberX,numberY⟩ := leNumbers below
    rw [leIff numberX numberY,← rankX,← rankY] at below
    exact (leIff (nanX.trans numberX) (nanY.trans numberY)).mpr below

theorem alikeSame (same : (x == y) = true) : Alike x y := by
  obtain ⟨numberX,numberY⟩ := leNumbers (sameIff.mp same).1
  have zero : rank 0 = 2147483648 := rfl
  have level := (beqIff numberX numberY).mp same
  rw [Alike,beqIff numberX rfl,beqIff numberY rfl,zero,← level]
  by_cases middle : rank x = 2147483648
  · exact .inr ⟨middle,middle⟩
  · refine .inl ?_
    have wordX := (toWord x).toNat_lt
    have wordY := (toWord y).toNat_lt
    have sizeX := magnitude numberX
    have sizeY := magnitude numberY
    have words : (toWord x).toNat = (toWord y).toNat := by
      unfold rank place at level middle
      split at level <;> split at level <;> split at middle <;> omega
    rw [← wordsUnpacked x,UInt32.toNat_inj.mp words,wordsUnpacked]

theorem Alike.same (h : Alike x y) (number : Float32.isNaN x = false) : (x == y) = true := by
  obtain ⟨nan,level⟩ := h.places
  exact (beqIff number (nan ▸ number)).mpr level

theorem finiteSame (same : (x == y) = true) (finite : Float32.isFinite y = true) : Float32.isFinite x = true := by
  rcases alikeSame same with rfl | ⟨zero,_⟩
  · exact finite
  · obtain ⟨s,zero⟩ := zeroIff.mp zero
    show x.toModel.unpack.isFinite = true
    rw [zero]
    rfl

theorem alikeSmaller (h : Alike x x') (k : Alike y y') : Alike (smaller x y) (smaller x' y') := by
  unfold smaller
  rw [h.places.1]
  split
  · exact k
  · by_cases below : y < x
    · rwa [if_pos below,if_pos ((k.lt h).mp below)]
    · rwa [if_neg below,if_neg (mt (k.lt h).mpr below)]

theorem alikeLarger (h : Alike x x') (k : Alike y y') : Alike (larger x y) (larger x' y') := by
  unfold larger
  rw [h.places.1]
  split
  · exact k
  · by_cases below : x < y
    · rwa [if_pos below,if_pos ((h.lt k).mp below)]
    · rwa [if_neg below,if_neg (mt (h.lt k).mpr below)]

end

/- The sign of a zero put in shows only in a zero that comes out. -/
def Blind (f : UnpackedFloat → UnpackedFloat) : Prop := ∀ s t, Near (f (.zero s)) (f (.zero t))

theorem nearBlind {f : UnpackedFloat → UnpackedFloat} {u v : UnpackedFloat} (blind : Blind f)
    (h : Near u v) : Near (f u) (f v) := by
  rcases h with same | ⟨⟨s,rfl⟩,⟨t,rfl⟩⟩
  · exact .inl (same ▸ rfl)
  · exact blind s t

section
variable {x x' y y' : Scalar}

theorem alikeBlind {op : UnpackedFloat → UnpackedFloat → UnpackedFloat} (first : ∀ w, Blind (op · w))
    (second : ∀ w, Blind (op w)) (h : Alike x x') (k : Alike y y') :
    Alike (.ofModel (.pack (op x.toModel.unpack y.toModel.unpack)))
      (.ofModel (.pack (op x'.toModel.unpack y'.toModel.unpack))) :=
  (nearPacked (nearBlind (first _) (nearUnpacked h))).trans
    (nearPacked (nearBlind (second _) (nearUnpacked k)))

theorem alikeAdd (h : Alike x x') (k : Alike y y') : Alike (x + y) (x' + y') := by
  refine @alikeBlind _ _ _ _ (.add .binary32) (fun w s t => ?_) (fun w s t => ?_) h k
  · cases w with
    | zero r => cases r <;> cases s <;> cases t <;> exact .inr ⟨⟨_,rfl⟩,⟨_,rfl⟩⟩
    | _ => exact .inl rfl
  · cases w with
    | zero r => cases r <;> cases s <;> cases t <;> exact .inr ⟨⟨_,rfl⟩,⟨_,rfl⟩⟩
    | _ => exact .inl rfl

theorem alikeSub (h : Alike x x') (k : Alike y y') : Alike (x - y) (x' - y') := by
  refine @alikeBlind _ _ _ _ (.sub .binary32) (fun w s t => ?_) (fun w s t => ?_) h k
  · cases w with
    | zero r => cases r <;> cases s <;> cases t <;> exact .inr ⟨⟨_,rfl⟩,⟨_,rfl⟩⟩
    | _ => exact .inl rfl
  · cases w with
    | zero r => cases r <;> cases s <;> cases t <;> exact .inr ⟨⟨_,rfl⟩,⟨_,rfl⟩⟩
    | _ => exact .inl rfl

theorem alikeMul (h : Alike x x') (k : Alike y y') : Alike (x * y) (x' * y') := by
  refine @alikeBlind _ _ _ _ (.mul .binary32) (fun w s t => ?_) (fun w s t => ?_) h k
  · cases w with
    | infinity r => exact .inl rfl
    | notANumber => exact .inl rfl
    | zero r => exact .inr ⟨⟨_,rfl⟩,⟨_,rfl⟩⟩
    | finite r m e positive => exact .inr ⟨⟨_,rfl⟩,⟨_,rfl⟩⟩
  · cases w with
    | infinity r => exact .inl rfl
    | notANumber => exact .inl rfl
    | zero r => exact .inr ⟨⟨_,rfl⟩,⟨_,rfl⟩⟩
    | finite r m e positive => exact .inr ⟨⟨_,rfl⟩,⟨_,rfl⟩⟩

theorem alikeDiv (h : Alike x x') (y : Scalar) : Alike (x / y) (x' / y) := by
  have blind w : Blind (.div .binary32 · w) := by
    intro s t
    cases w with
    | infinity r => exact .inr ⟨⟨_,rfl⟩,⟨_,rfl⟩⟩
    | notANumber => exact .inl rfl
    | zero r => exact .inl rfl
    | finite r m e positive => exact .inr ⟨⟨_,rfl⟩,⟨_,rfl⟩⟩
  exact nearPacked (nearBlind (blind _) (nearUnpacked h))

theorem alikeAbs (h : Alike x x') : Alike (Float32.abs x) (Float32.abs x') :=
  nearPacked (@nearBlind .abs _ _ (fun _ _ => .inl rfl) (nearUnpacked h))

end
end Sightline.Scalar
