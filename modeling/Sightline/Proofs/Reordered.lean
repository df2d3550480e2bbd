import Sightline.Proofs.Alike
import Sightline.Proofs.Cheapest
import Mathlib.Data.List.Forall2
import Mathlib.Data.Option.Basic

/-! What a build makes of its triangles does not depend on the order in which they come. The box around some
boxes is an extreme on each side, whatever comes first, up to the sign of a zero; so costs, planes and the plane
that is chosen are alike in two searches through reordered items, and a plane sends the same items to the left.
By induction on the division the two trees have one shape, with equal boxes and the same triangles in each leaf. -/
namespace Sightline

namespace Scalar

section
variable {pick : Scalar → Scalar → Scalar} {before : Scalar → Scalar → Prop} {x y : Scalar}
  {xs ys zs : List Scalar}

theorem smallerSkips (number : Float32.isNaN x = false) (nan : Float32.isNaN y = true) : smaller x y = x := by
  rw [smaller,if_neg (Bool.eq_false_iff.mp number),if_neg]
  intro below
  rw [(ltNumbers below).1] at nan
  contradiction

theorem largerSkips (number : Float32.isNaN x = false) (nan : Float32.isNaN y = true) : larger x y = x := by
  rw [larger,if_neg (Bool.eq_false_iff.mp number),if_neg (notLtNan nan)]

theorem pickNumber (law : Picks pick before) (numberX : Float32.isNaN x = false)
    (numberY : Float32.isNaN y = false) : Float32.isNaN (pick x y) = false := by
  rcases law.one x y with same | same <;> rw [same] <;> assumption

theorem foldNumbers (law : Picks pick before)
    (skips : ∀ {x y}, Float32.isNaN x = false → Float32.isNaN y = true → pick x y = x)
    (number : Float32.isNaN x = false) : ys.foldl pick x = (ys.filter (!Float32.isNaN ·)).foldl pick x := by
  induction ys generalizing x with
  | nil => rfl
  | cons y rest ih =>
    cases nan : Float32.isNaN y with
    | true =>
      rw [List.foldl_cons,skips number nan,List.filter_cons_of_neg (by rw [nan]; decide)]
      exact ih number
    | false =>
      rw [List.foldl_cons,List.filter_cons_of_pos (by rw [nan]; rfl),List.foldl_cons]
      exact ih (pickNumber law number nan)

theorem extremesSame (law : Picks pick before) (left : Extreme before x xs) (right : Extreme before y ys)
    (perm : xs.Perm ys) : (x == y) = true := by
  obtain ⟨z,inXs,sameX⟩ := left.2
  obtain ⟨w,inYs,sameY⟩ := right.2
  exact law.same.mpr ⟨law.trans (left.1 w (perm.mem_iff.mpr inYs)) (law.same.mp sameY).2,
    law.trans (right.1 z (perm.mem_iff.mp inXs)) (law.same.mp sameX).2⟩

theorem foldPermuted (law : Picks pick before)
    (skips : ∀ {x y}, Float32.isNaN x = false → Float32.isNaN y = true → pick x y = x)
    (number : Float32.isNaN x = false) (perm : ys.Perm zs) : (ys.foldl pick x == zs.foldl pick x) = true := by
  have extreme (ys : List Scalar) :
      Extreme before ((ys.filter (!Float32.isNaN ·)).foldl pick x) ([x] ++ ys.filter (!Float32.isNaN ·)) :=
    extremeFold law (extremeSelf law number) fun y member => by
      simpa only [Bool.not_eq_true'] using (List.mem_filter.mp member).2
  have numbers (ys : List Scalar) : ys.foldl pick x = (ys.filter (!Float32.isNaN ·)).foldl pick x :=
    foldNumbers law skips number
  rw [numbers ys,numbers zs]
  exact extremesSame law (extreme ys) (extreme zs) ((perm.filter _).append_left [x])

end
end Scalar

namespace Box
variable {b c d e : Box} {bs cs : List Box}

def Alike (b c : Box) : Prop := ∀ a, (b.bottom.component a == c.bottom.component a) = true ∧
  (b.top.component a == c.top.component a) = true

theorem boxesPermuted (perm : bs.Perm cs) : (ofBoxes bs).Alike (ofBoxes cs) := by
  intro a
  have above : empty.bottom.component a = Scalar.greatest := by cases a <;> rfl
  have below : empty.top.component a = Scalar.lowest := by cases a <;> rfl
  obtain ⟨lowestB,greatestB⟩ := unionBounds a empty bs
  obtain ⟨lowestC,greatestC⟩ := unionBounds a empty cs
  rw [ofBoxes,ofBoxes,lowestB,lowestC,greatestB,greatestC,above,below]
  exact ⟨Scalar.foldPermuted Scalar.smallerPicks Scalar.smallerSkips Scalar.greatestNumber (perm.map _),
    Scalar.foldPermuted Scalar.largerPicks Scalar.largerSkips Scalar.lowestNumber (perm.map _)⟩

theorem alikeUnion (h : b.Alike c) (k : d.Alike e) : (b.union d).Alike (c.union e) := by
  intro a
  have number {x y : Scalar} (same : (x == y) = true) := (Scalar.leNumbers (Scalar.sameIff.mp same).1).1
  simp only [union,Vec3.smaller,Vec3.larger,Vec3.componentZip]
  constructor
  · exact (Scalar.alikeSmaller (Scalar.alikeSame (h a).1) (Scalar.alikeSame (k a).1)).same
      (Scalar.pickNumber Scalar.smallerPicks (number (h a).1) (number (k a).1))
  · exact (Scalar.alikeLarger (Scalar.alikeSame (h a).2) (Scalar.alikeSame (k a).2)).same
      (Scalar.pickNumber Scalar.largerPicks (number (h a).2) (number (k a).2))

theorem alikeHalfArea (h : b.Alike c) : Scalar.Alike b.halfArea c.halfArea := by
  have side a : Scalar.Alike (b.top.component a - b.bottom.component a)
      (c.top.component a - c.bottom.component a) :=
    Scalar.alikeSub (Scalar.alikeSame (h a).2) (Scalar.alikeSame (h a).1)
  exact Scalar.alikeAdd (Scalar.alikeAdd (Scalar.alikeMul (side .x) (side .y))
    (Scalar.alikeMul (side .y) (side .z))) (Scalar.alikeMul (side .z) (side .x))

end Box

namespace Item
variable {work more : List Item}

theorem boundsPermuted (perm : work.Perm more) : (boundsOf work).Alike (boundsOf more) :=
  Box.boxesPermuted (perm.map bounds)

theorem costPermuted (perm : work.Perm more) : Scalar.Alike (cost work) (cost more) := by
  unfold cost
  rw [perm.length_eq]
  exact Scalar.alikeMul (Box.alikeHalfArea (boundsPermuted perm)) (Scalar.alikeSelf _)

end Item

namespace Split
variable {work more : List Item} {b c : Box} {s t : Split}

structure Alike (s t : Split) : Prop where
  axis : s.axis = t.axis
  value : Scalar.Alike s.value t.value

theorem goesAlike (h : s.Alike t) : s.goesLeft = t.goesLeft := by
  funext item
  unfold goesLeft
  rw [h.axis]
  exact decide_eq_decide.mpr ((Scalar.alikeSelf _).lt h.value)

theorem sidesPermuted (h : s.Alike t) (perm : work.Perm more) :
    (s.left work).Perm (t.left more) ∧ (s.right work).Perm (t.right more) := by
  unfold left right
  rw [goesAlike h]
  exact ⟨perm.filter _,perm.filter _⟩

theorem alikeCost (h : s.Alike t) (perm : work.Perm more) :
    Option.Rel Scalar.Alike (cost work s) (cost more t) := by
  obtain ⟨left,right⟩ := sidesPermuted h perm
  simp only [cost]
  rw [left.length_eq,right.length_eq]
  split
  · exact .none
  · exact .some (Scalar.alikeAdd (Item.costPermuted left) (Item.costPermuted right))

theorem alikeSamples {step limit x step' limit' x' : Scalar} (steps : Scalar.Alike step step')
    (limits : Scalar.Alike limit limit') (h : Scalar.Alike x x') :
    List.Forall₂ Scalar.Alike (samples step limit x) (samples step' limit' x') := by
  have next {x x'} (h : Scalar.Alike x x') := Scalar.alikeAdd h steps
  induction x using samples.induct step limit generalizing x' with
  | case1 x below ih =>
    by_cases lost : x + step ≤ x
    · rw [samplesLost below lost,samplesLost ((h.lt limits).mp below) (((next h).le h).mp lost)]
      exact .cons h .nil
    · rw [samplesMore below lost,samplesMore ((h.lt limits).mp below) (mt ((next h).le h).mpr lost)]
      exact .cons h (ih lost (next h))
  | case2 x above =>
    rw [samples,dif_neg above,samples,dif_neg (mt (h.lt limits).mpr above)]
    exact .nil

theorem alikeGrid {start stop start' stop' : Scalar} (starts : Scalar.Alike start start')
    (stops : Scalar.Alike stop stop') (depth : Nat) :
    List.Forall₂ Scalar.Alike (grid start stop depth) (grid start' stop' depth) := by
  have extents := Scalar.alikeSub stops starts
  have steps := Scalar.alikeDiv extents (gridSize / (Scalar.ofCount depth + 1))
  have flat := (Scalar.alikeAbs extents).lt (Scalar.alikeSelf flatness)
  unfold grid
  by_cases thin : Float32.abs (stop - start) < flatness
  · rw [if_pos thin,if_pos (flat.mp thin)]
    exact .nil
  · rw [if_neg thin,if_neg (mt flat.mpr thin)]
    exact alikeSamples steps (Scalar.alikeSub stops steps) (Scalar.alikeAdd starts steps)

theorem alikeCandidates (h : b.Alike c) (depth : Nat) :
    List.Forall₂ Alike (candidates b depth) (candidates c depth) := by
  have along a : List.Forall₂ Alike ((grid (b.bottom.component a) (b.top.component a) depth).map (mk a))
      ((grid (c.bottom.component a) (c.top.component a) depth).map (mk a)) := by
    rw [List.forall₂_map_left_iff,List.forall₂_map_right_iff]
    exact (alikeGrid (Scalar.alikeSame (h a).1) (Scalar.alikeSame (h a).2) depth).imp fun v w near => ⟨rfl,near⟩
  rw [candidatesAlong,candidatesAlong]
  exact List.rel_append (List.rel_append (along .x) (along .y)) (along .z)

structure Best.Alike (b c : Best) : Prop where
  cost : Scalar.Alike b.cost c.cost
  split : Option.Rel Split.Alike b.split c.split

theorem alikeConsider {best rival : Best} (perm : work.Perm more) (sofar : best.Alike rival) (h : s.Alike t) :
    (consider work best s).Alike (consider more rival t) := by
  have priced := alikeCost h perm
  unfold consider
  cases priceS : cost work s <;> cases priceT : cost more t <;> rw [priceS,priceT] at priced
  case none.none => exact sofar
  case some.some d e =>
    cases priced with
    | some near =>
      dsimp only
      by_cases cheaper : d < best.cost
      · rw [if_pos cheaper,if_pos ((near.lt sofar.cost).mp cheaper)]
        exact ⟨near,.some h⟩
      · rw [if_neg cheaper,if_neg (mt (near.lt sofar.cost).mpr cheaper)]
        exact sofar
  all_goals cases priced

theorem alikeFold {best rival : Best} {ss ts : List Split} (perm : work.Perm more) (sofar : best.Alike rival)
    (h : List.Forall₂ Alike ss ts) :
    (ss.foldl (consider work) best).Alike (ts.foldl (consider more) rival) := by
  induction h generalizing best rival with
  | nil => exact sofar
  | cons first rest ih => exact ih (alikeConsider perm sofar first)

theorem alikeFind (perm : work.Perm more) (h : b.Alike c) (depth : Nat) :
    Option.Rel Alike (find work b depth) (find more c depth) := by
  have start : (undivided work b).Alike (undivided more c) := by
    refine ⟨?_,.none⟩
    unfold undivided
    rw [perm.length_eq]
    exact Scalar.alikeMul (Scalar.alikeSelf _) (Box.alikeHalfArea h)
  exact (alikeFold perm start (alikeCandidates h depth)).split

section
variable {depth : Nat}

theorem alikeSome (perm : work.Perm more) (found : find work (Item.boundsOf work) depth = some s) :
    ∃ t, find more (Item.boundsOf more) depth = some t ∧ s.Alike t := by
  have searches := alikeFind perm (Item.boundsPermuted perm) depth
  rw [found] at searches
  cases other : find more (Item.boundsOf more) depth with
  | none =>
    rw [other] at searches
    cases searches
  | some t =>
    rw [other] at searches
    cases searches with
    | some near => exact ⟨t,rfl,near⟩

theorem alikeNone (perm : work.Perm more) : find work (Item.boundsOf work) depth = none ↔
    find more (Item.boundsOf more) depth = none := by
  have never {work more : List Item} (perm : work.Perm more) (none : find work (Item.boundsOf work) depth = none) :
      find more (Item.boundsOf more) depth = Option.none := by
    refine Option.eq_none_iff_forall_not_mem.mpr fun t found => ?_
    obtain ⟨s,other,_⟩ := alikeSome perm.symm found
    rw [none] at other
    contradiction
  exact ⟨never perm,never perm.symm⟩

end
end Split

namespace Tree
variable {work more : List Item} {t u : Tree}

inductive Alike : Tree → Tree → Prop where
  | leaf {b c ts us} (boxes : b.Alike c) (held : ts.Perm us) : Alike (.leaf b ts) (.leaf c us)
  | inner {b c l l' r r'} (boxes : b.Alike c) (left : Alike l l') (right : Alike r r') :
      Alike (.inner b l r) (.inner c l' r')

theorem Alike.boxes (h : t.Alike u) : t.bounds.Alike u.bounds := by cases h <;> assumption

theorem Alike.leafSizes (h : t.Alike u) : t.leaves.map List.length = u.leaves.map List.length := by
  induction h with
  | leaf boxes held => simp [leaves,held.length_eq]
  | inner boxes left right hl hr => simp [leaves,hl,hr]

theorem itemsPermuted (perm : work.Perm more) : (ofItems work).Alike (ofItems more) :=
  .leaf (Item.boundsPermuted perm) (perm.map Item.triangle)

theorem alikeJoin {l l' r r' : Tree} (left : l.Alike l') (right : r.Alike r') :
    (join l r).Alike (join l' r') :=
  .inner (Box.alikeUnion left.boxes right.boxes) left right

theorem buildAtPermuted (work : List Item) (depth : Nat) :
    ∀ more, work.Perm more → (buildAt work depth).Alike (buildAt more depth) := by
  induction work, depth using buildAt.induct with
  | case1 work depth small =>
    intro more perm
    rw [buildAtLeaf (.inl small),buildAtLeaf (.inl (perm.length_eq ▸ small))]
    exact itemsPermuted perm
  | case2 work depth large best found s hl hr =>
    intro more perm
    obtain ⟨t,foundMore,near⟩ := Split.alikeSome perm (Option.some_get found).symm
    obtain ⟨left,right⟩ := Split.sidesPermuted near perm
    rw [buildAtInner large (Option.some_get found).symm,buildAtInner (perm.length_eq ▸ large) foundMore]
    exact alikeJoin (hl _ left) (hr _ right)
  | case3 work depth large best unfound =>
    intro more perm
    have none := Option.not_isSome_iff_eq_none.mp unfound
    rw [buildAtLeaf (.inr none),buildAtLeaf (.inr ((Split.alikeNone perm).mp none))]
    exact itemsPermuted perm

theorem buildPermuted (perm : work.Perm more) : (build work).Alike (build more) ∧
    Progress.ofTree work.length (build work) = Progress.ofTree more.length (build more) := by
  have alike := buildAtPermuted work 0 more perm
  refine ⟨alike,?_⟩
  rw [Progress.ofTree,Progress.ofTree,build,build,alike.leafSizes,perm.length_eq]

theorem bladesReversed : (build Hierarchy.bladeItems).depth = 1 ∧
    Hierarchy.bladeItems.Perm Hierarchy.bladeItems.reverse ∧
    (build Hierarchy.bladeItems).Alike (build Hierarchy.bladeItems.reverse) ∧
    Progress.ofTree Hierarchy.bladeItems.length (build Hierarchy.bladeItems) =
      Progress.ofTree Hierarchy.bladeItems.reverse.length (build Hierarchy.bladeItems.reverse) := by
  have perm := Hierarchy.bladeItems.reverse_perm.symm
  exact ⟨by rw [Hierarchy.bladesTree]; rfl,perm,buildPermuted perm⟩

end Tree
end Sightline
