import Sightline.Proofs.Stored

/-! The ends of the order of numbers and the choice between two of them. Every finite number lies between
the lowest and the greatest one, and only infinity lies above. Choosing the smaller of two numbers and
choosing the larger are one law seen from both ends: what is chosen is one of the two and goes before both.
A chain of choices that starts at an end of the order comes to an extreme of the numbers put in. -/
namespace Sightline.Scalar

section
variable {x y z : Scalar}

theorem leTrans (h : x ≤ y) (k : y ≤ z) : x ≤ z := by
  obtain ⟨numberX,numberY⟩ := leNumbers h
  have numberZ := (leNumbers k).2
  rw [leIff numberX numberY] at h
  rw [leIff numberY numberZ] at k
  exact (leIff numberX numberZ).mpr (Nat.le_trans h k)

theorem leOfLt (h : x < y) : x ≤ y := by
  obtain ⟨numberX,numberY⟩ := ltNumbers h
  exact (leIff numberX numberY).mpr (Nat.le_of_lt (rankLt h))

theorem ltOfLtLe (h : x < y) (k : y ≤ z) : x < z := by
  obtain ⟨numberX,numberY⟩ := ltNumbers h
  have numberZ := (leNumbers k).2
  rw [leIff numberY numberZ] at k
  exact (ltIff numberX numberZ).mpr (Nat.lt_of_lt_of_le (rankLt h) k)

theorem ltOfLeLt (h : x ≤ y) (k : y < z) : x < z := by
  obtain ⟨numberX,numberY⟩ := leNumbers h
  have numberZ := (ltNumbers k).2
  rw [leIff numberX numberY] at h
  exact (ltIff numberX numberZ).mpr (Nat.lt_of_le_of_lt h (rankLt k))

theorem notLtNan (nan : Float32.isNaN y = true) : ¬x < y := by
  intro below
  rw [(ltNumbers below).2] at nan
  contradiction

theorem leSelf (number : Float32.isNaN x = false) : x ≤ x := (leIff number number).mpr (Nat.le_refl _)

theorem leOfNotLt (numberX : Float32.isNaN x = false) (numberY : Float32.isNaN y = false)
    (h : ¬y < x) : x ≤ y :=
  (leIff numberX numberY).mpr (Nat.le_of_not_lt fun k => h ((ltIff numberY numberX).mpr k))

theorem sameIff : (x == y) = true ↔ x ≤ y ∧ y ≤ x := by
  constructor
  · intro same
    have same' : (x.toModel.compare y.toModel == some .eq) = true := same
    obtain ⟨numberX,numberY⟩ := @numbersOfComparable x y fun none => by
      rw [none] at same'
      contradiction
    rw [beqIff numberX numberY] at same
    rw [leIff numberX numberY,leIff numberY numberX]
    omega
  · intro both
    obtain ⟨numberX,numberY⟩ := leNumbers both.1
    rw [leIff numberX numberY,leIff numberY numberX] at both
    exact (beqIff numberX numberY).mpr (by omega)

theorem magnitude (number : Float32.isNaN x = false) : (toWord x).toNat % 2147483648 ≤ 2139095040 := by
  rcases numberShapes (decodedOfNumber number) with ⟨_,size⟩ | ⟨_,size⟩ | ⟨m,e,_,_,size⟩ <;> omega

theorem rankWithin {n : Nat} (size : (toWord x).toNat % 2147483648 ≤ n) :
    2147483648 ≤ rank x + n ∧ rank x ≤ 2147483648 + n := by
  have word := (toWord x).toNat_lt
  unfold rank place
  split <;> omega

theorem finiteNumber (finite : Float32.isFinite x = true) : Float32.isNaN x = false := by
  have finite : x.toModel.unpack.isFinite = true := finite
  refine Bool.eq_false_iff.mpr fun nan => ?_
  rw [decodedOfNan nan] at finite
  contradiction

theorem finiteMagnitude (finite : Float32.isFinite x = true) :
    (toWord x).toNat % 2147483648 ≤ 2139095039 := by
  have shapes := numberShapes (decodedOfNumber (finiteNumber finite))
  have finite : x.toModel.unpack.isFinite = true := finite
  rw [unpacked] at finite
  rcases shapes with ⟨same,_⟩ | ⟨_,size⟩ | ⟨m,e,_,_,size⟩
  · rw [same] at finite
    contradiction
  · omega
  · omega

theorem rankGreatest : rank greatest = 4286578687 := rfl
theorem rankLowest : rank lowest = 8388609 := rfl
theorem greatestNumber : Float32.isNaN greatest = false := rfl
theorem lowestNumber : Float32.isNaN lowest = false := rfl

theorem finiteBounds (finite : Float32.isFinite x = true) : lowest ≤ x ∧ x ≤ greatest := by
  have number := finiteNumber finite
  have within := rankWithin (finiteMagnitude finite)
  rw [leIff lowestNumber number,leIff number greatestNumber,rankLowest,rankGreatest]
  omega

theorem finiteIff : Float32.isFinite x = true ↔ lowest ≤ x ∧ x ≤ greatest := by
  refine ⟨finiteBounds,fun ⟨above,below⟩ => ?_⟩
  have number := (leNumbers below).1
  have word := (toWord x).toNat_lt
  rw [leIff lowestNumber number,rankLowest] at above
  rw [leIff number greatestNumber,rankGreatest] at below
  show x.toModel.unpack.isFinite = true
  rw [unpacked]
  rcases numberShapes (decodedOfNumber number) with ⟨same,size⟩ | ⟨same,_⟩ | ⟨m,e,_,same,_⟩
  · unfold rank place at above below
    split at above <;> split at below <;> omega
  · rw [same]
    rfl
  · rw [same]
    rfl

theorem finiteBetween (finiteX : Float32.isFinite x = true) (finiteZ : Float32.isFinite z = true)
    (first : x ≤ y) (second : y ≤ z) : Float32.isFinite y = true :=
  finiteIff.mpr ⟨leTrans (finiteIff.mp finiteX).1 first,leTrans second (finiteIff.mp finiteZ).2⟩

theorem leGreatest (number : Float32.isNaN x = false) (bounded : x ≠ infinity) : x ≤ greatest := by
  have size := magnitude number
  have word := (toWord x).toNat_lt
  have other : (toWord x).toNat ≠ 2139095040 := by
    intro same
    refine bounded ?_
    have same : toWord x = 0x7f800000 := UInt32.toNat_inj.mp same
    rw [← wordsUnpacked x,same]
    rfl
  rw [leIff number greatestNumber,rankGreatest]
  unfold rank place
  split <;> omega

end

theorem smallerNumber {x : Scalar} (number : Float32.isNaN x = false) (y : Scalar) :
    smaller x y = if y < x then y else x := if_neg (Bool.eq_false_iff.mp number)

theorem largerNumber {x : Scalar} (number : Float32.isNaN x = false) (y : Scalar) :
    larger x y = if x < y then y else x := if_neg (Bool.eq_false_iff.mp number)

structure Picks (pick : Scalar → Scalar → Scalar) (before : Scalar → Scalar → Prop) : Prop where
  one : ∀ x y, pick x y = x ∨ pick x y = y
  first : ∀ {x y}, Float32.isNaN x = false → Float32.isNaN y = false → before (pick x y) x
  second : ∀ {x y}, Float32.isNaN x = false → Float32.isNaN y = false → before (pick x y) y
  trans : ∀ {x y z}, before x y → before y z → before x z
  same : ∀ {x y}, (x == y) = true ↔ before x y ∧ before y x

theorem smallerPicks : Picks smaller (· ≤ ·) where
  one := smallerCases
  first {x y} numberX numberY := by
    rw [smallerNumber numberX]
    split
    · exact leOfLt (by assumption)
    · exact leSelf numberX
  second {x y} numberX numberY := by
    rw [smallerNumber numberX]
    split
    · exact leSelf numberY
    · exact leOfNotLt numberX numberY (by assumption)
  trans := leTrans
  same := sameIff

theorem largerPicks : Picks larger (fun x y => y ≤ x) where
  one := largerCases
  first {x y} numberX numberY := by
    rw [largerNumber numberX]
    split
    · exact leOfLt (by assumption)
    · exact leSelf numberX
  second {x y} numberX numberY := by
    rw [largerNumber numberX]
    split
    · exact leSelf numberY
    · exact leOfNotLt numberY numberX (by assumption)
  trans h k := leTrans k h
  same := sameIff.trans And.comm

section
variable {pick : Scalar → Scalar → Scalar} {before : Scalar → Scalar → Prop} {x x' y y' z : Scalar}

theorem pickBefore (law : Picks pick before) (first : before z x) (second : before z y) : before z (pick x y) := by
  rcases law.one x y with same | same <;> rw [same]
  · exact first
  · exact second

theorem pickMono (law : Picks pick before) (numberX : Float32.isNaN x = false) (numberY : Float32.isNaN y = false)
    (first : before x x') (second : before y y') : before (pick x y) (pick x' y') :=
  pickBefore law (law.trans (law.first numberX numberY) first) (law.trans (law.second numberX numberY) second)

end

def Extreme (before : Scalar → Scalar → Prop) (x : Scalar) (xs : List Scalar) : Prop :=
  (∀ y ∈ xs, before x y) ∧ ∃ y ∈ xs, (x == y) = true

theorem extremeMap {before : Scalar → Scalar → Prop} {x : Scalar} {f : α → Scalar} {ys : List α} :
    Extreme before x (ys.map f) ↔ (∀ y ∈ ys, before x (f y)) ∧ ∃ y ∈ ys, (x == f y) = true := by
  unfold Extreme
  rw [List.forall_mem_map]
  refine and_congr_right fun _ => ⟨?_,?_⟩
  · intro found
    obtain ⟨_,member,same⟩ := found
    obtain ⟨y,there,rfl⟩ := List.mem_map.mp member
    exact ⟨y,there,same⟩
  · intro found
    obtain ⟨y,there,same⟩ := found
    exact ⟨_,List.mem_map_of_mem there,same⟩

section
variable {pick : Scalar → Scalar → Scalar} {before : Scalar → Scalar → Prop} {x y : Scalar}
  {xs ys : List Scalar}

theorem extremeNumber (h : Extreme before x xs) : Float32.isNaN x = false := by
  obtain ⟨y,_,same⟩ := h.2
  exact (leNumbers (sameIff.mp same).1).1

theorem extremeSelf (law : Picks pick before) (number : Float32.isNaN x = false) :
    Extreme before x [x] := by
  have same : (x == x) = true := sameIff.mpr ⟨leSelf number,leSelf number⟩
  refine ⟨?_,x,List.mem_singleton.mpr rfl,same⟩
  intro y member
  cases List.mem_singleton.mp member
  exact (law.same.mp same).1

theorem extremeAppend (law : Picks pick before) (left : Extreme before x xs)
    (right : Extreme before y ys) : Extreme before (pick x y) (xs ++ ys) := by
  have numberX := extremeNumber left
  have numberY := extremeNumber right
  refine ⟨?_,?_⟩
  · intro z member
    rcases List.mem_append.mp member with member | member
    · exact law.trans (law.first numberX numberY) (left.1 z member)
    · exact law.trans (law.second numberX numberY) (right.1 z member)
  · rcases law.one x y with chosen | chosen <;> rw [chosen]
    · obtain ⟨z,member,same⟩ := left.2
      exact ⟨z,List.mem_append_left _ member,same⟩
    · obtain ⟨z,member,same⟩ := right.2
      exact ⟨z,List.mem_append_right _ member,same⟩

theorem extremeFold (law : Picks pick before) (h : Extreme before x xs)
    (numbers : ∀ y ∈ ys, Float32.isNaN y = false) : Extreme before (ys.foldl pick x) (xs ++ ys) := by
  induction ys generalizing x xs with
  | nil => simpa using h
  | cons y rest ih =>
    obtain ⟨number,later⟩ := List.forall_mem_cons.mp numbers
    have next := ih (extremeAppend law h (extremeSelf law number)) later
    rwa [List.append_assoc] at next

/- From an end of the order the first choice is that of the first number, or of one equal to it. -/
theorem extremeFrom (law : Picks pick before) (number : Float32.isNaN x = false) (nonempty : ys ≠ [])
    (numbers : ∀ y ∈ ys, Float32.isNaN y = false) (last : ∀ y ∈ ys, before y x) :
    Extreme before (ys.foldl pick x) ys := by
  cases ys with
  | nil => contradiction
  | cons y rest =>
    obtain ⟨numberY,later⟩ := List.forall_mem_cons.mp numbers
    have chosen : Extreme before (pick x y) [y] := by
      refine ⟨?_,y,List.mem_singleton.mpr rfl,?_⟩
      · intro z member
        cases List.mem_singleton.mp member
        exact law.second number numberY
      · rcases law.one x y with same | same
        · have second := law.second number numberY
          rw [same] at second ⊢
          exact law.same.mpr ⟨second,last y List.mem_cons_self⟩
        · rw [same]
          exact sameIff.mpr ⟨leSelf numberY,leSelf numberY⟩
    exact extremeFold law chosen later

end
end Sightline.Scalar
