import Sightline.Proofs.Hull
import Sightline.Proofs.Quotient

/-! What a box does to a ray that gets through a smaller box inside. On each axis both planes of the inner slab lie
between the planes of the outer one. The difference from the origin keeps the order of planes, and the quotient by the
direction keeps it too or turns all of it round; so a ray comes into the outer slab no later and leaves it no earlier,
and what the inner slabs leave of its parameters lies within what the outer slabs leave. Only the order of numbers is
used: rounding does not matter, nor does a parameter past the greatest number. -/
namespace Sightline

structure Ray.Finite (r : Ray) : Prop where
  origin : r.origin.Finite
  direction : r.direction.Finite

structure Box.Solid (b : Box) : Prop where
  finite : b.Finite
  order : ∀ a, b.bottom.component a ≤ b.top.component a

namespace Span

structure Within (s t : Span) : Prop where
  near : t.near ≤ s.near
  far : s.far ≤ t.far

def between (origin direction bottom top : Scalar) : Span :=
  let a := (bottom - origin) / direction
  let b := (top - origin) / direction
  ⟨if a > b then b else a,if a > b then a else b⟩

def inter (s t : Span) : Span :=
  ⟨if t.near > s.near then t.near else s.near,if t.far < s.far then t.far else s.far⟩

section
variable {s s' t t' : Span} {origin direction bottom top plane : Scalar}

theorem clipParallel (parallel : (direction == 0) = true) : s.clip origin direction bottom top =
    if origin < bottom ∨ origin > top then none else some s := if_pos parallel

theorem clipAcross (across : (direction == 0) = false) : s.clip origin direction bottom top =
    let rest := s.inter (between origin direction bottom top)
    if rest.near > rest.far ∨ rest.far < 0 then none else some rest := by
  unfold clip
  rw [across]
  rfl

theorem interWithin (first : s.Within s') (second : t.Within t') : (s.inter t).Within (s'.inter t') := by
  obtain ⟨numberS',numberS⟩ := Scalar.leNumbers first.near
  obtain ⟨numberT',numberT⟩ := Scalar.leNumbers second.near
  obtain ⟨farS,farS'⟩ := Scalar.leNumbers first.far
  obtain ⟨farT,farT'⟩ := Scalar.leNumbers second.far
  have near := Scalar.pickMono Scalar.largerPicks numberS numberT first.near second.near
  have far := Scalar.pickMono Scalar.smallerPicks farS farT first.far second.far
  rw [Scalar.largerNumber numberS,Scalar.largerNumber numberS'] at near
  rw [Scalar.smallerNumber farS,Scalar.smallerNumber farS'] at far
  exact ⟨near,far⟩

theorem betweenEnds (numberB : Float32.isNaN ((bottom - origin) / direction) = false)
    (numberT : Float32.isNaN ((top - origin) / direction) = false) :
    ((between origin direction bottom top).near ≤ (bottom - origin) / direction ∧
      (between origin direction bottom top).near ≤ (top - origin) / direction) ∧
    (bottom - origin) / direction ≤ (between origin direction bottom top).far ∧
      (top - origin) / direction ≤ (between origin direction bottom top).far := by
  have first := Scalar.smallerPicks.first numberB numberT
  have second := Scalar.smallerPicks.second numberB numberT
  have third := Scalar.largerPicks.second numberT numberB
  have fourth := Scalar.largerPicks.first numberT numberB
  rw [Scalar.smallerNumber numberB] at first second
  rw [Scalar.largerNumber numberT] at third fourth
  exact ⟨⟨first,second⟩,third,fourth⟩

theorem planeBetween (finiteO : Float32.isFinite origin = true) (finiteD : Float32.isFinite direction = true)
    (across : (direction == 0) = false) (finiteB : Float32.isFinite bottom = true)
    (finiteT : Float32.isFinite top = true) (finiteP : Float32.isFinite plane = true)
    (above : bottom ≤ plane) (below : plane ≤ top) :
    (between origin direction bottom top).near ≤ (plane - origin) / direction ∧
      (plane - origin) / direction ≤ (between origin direction bottom top).far := by
  have first := Scalar.differenceMono finiteB finiteP finiteO above
  have second := Scalar.differenceMono finiteP finiteT finiteO below
  rcases Scalar.finiteCases finiteD with zero | ⟨s,m,e,positive,steep⟩
  · rw [Scalar.zeroIff.mpr zero] at across
    contradiction
  obtain ⟨rises,falls⟩ := Scalar.quotientMono steep first
  obtain ⟨rises',falls'⟩ := Scalar.quotientMono steep second
  cases s with
  | positive =>
    have later := rises rfl
    have sooner := rises' rfl
    obtain ⟨⟨near,_⟩,_,far⟩ := betweenEnds (Scalar.leNumbers later).1 (Scalar.leNumbers sooner).2
    exact ⟨Scalar.leTrans near later,Scalar.leTrans sooner far⟩
  | negative =>
    -- against the axis, the upper plane comes first
    have later := falls' rfl
    have sooner := falls rfl
    obtain ⟨⟨_,near⟩,far,_⟩ := betweenEnds (Scalar.leNumbers sooner).2 (Scalar.leNumbers later).1
    exact ⟨Scalar.leTrans near later,Scalar.leTrans sooner far⟩

end

section
variable {inner outer : Box} {r : Ray} {s s' t : Span}

theorem betweenWithin (solid : inner.Solid) (finite : outer.Finite) (inside : outer.contains inner = true)
    (sane : r.Finite) {a : Axis} (across : (r.direction.component a == 0) = false) :
    (between (r.origin.component a) (r.direction.component a) (inner.bottom.component a)
      (inner.top.component a)).Within
    (between (r.origin.component a) (r.direction.component a) (outer.bottom.component a)
      (outer.top.component a)) := by
  obtain ⟨below,above⟩ := (Box.containsIff outer inner).mp inside a
  have upright := solid.order a
  obtain ⟨nearB,farB⟩ := planeBetween (sane.origin a) (sane.direction a) across (finite.bottom a) (finite.top a)
    (solid.finite.bottom a) below (Scalar.leTrans upright above)
  obtain ⟨nearT,farT⟩ := planeBetween (sane.origin a) (sane.direction a) across (finite.bottom a) (finite.top a)
    (solid.finite.top a) (Scalar.leTrans below upright) above
  constructor
  · show _ ≤ ite _ _ _
    split
    · exact nearT
    · exact nearB
  · show ite _ _ _ ≤ _
    split
    · exact farB
    · exact farT

theorem clipWithin (solid : inner.Solid) (finite : outer.Finite) (inside : outer.contains inner = true)
    (sane : r.Finite) (within : s.Within s') {a : Axis} (clipped : s.clipAxis inner r a = some t) :
    ∃ t', s'.clipAxis outer r a = some t' ∧ t.Within t' := by
  unfold clipAxis at clipped ⊢
  cases across : r.direction.component a == 0 with
  | true =>
    obtain ⟨below,above⟩ := (Box.containsIff outer inner).mp inside a
    rw [clipParallel across] at clipped ⊢
    split at clipped
    · contradiction
    · rename_i starts
      cases Option.some.inj clipped
      refine ⟨s',if_neg fun turned => starts ?_,within⟩
      rcases turned with left | right
      · exact .inl (Scalar.ltOfLtLe left below)
      · exact .inr (Scalar.ltOfLeLt above right)
  | false =>
    have slabs := interWithin within (betweenWithin solid finite inside sane across)
    rw [clipAcross across] at clipped ⊢
    dsimp only at clipped ⊢
    split at clipped
    · contradiction
    · rename_i passes
      cases Option.some.inj clipped
      refine ⟨_,if_neg fun turned => passes ?_,slabs⟩
      rcases turned with crossed | behind
      · exact .inl (Scalar.ltOfLeLt slabs.far (Scalar.ltOfLtLe crossed slabs.near))
      · exact .inr (Scalar.ltOfLeLt slabs.far behind)

theorem clipsWithin (solid : inner.Solid) (finite : outer.Finite) (inside : outer.contains inner = true)
    (sane : r.Finite) (axes : List Axis) (within : s.Within s')
    (clipped : axes.foldlM (clipAxis inner r) s = some t) :
    ∃ t', axes.foldlM (clipAxis outer r) s' = some t' ∧ t.Within t' := by
  induction axes generalizing s s' with
  | nil =>
    cases Option.some.inj clipped
    exact ⟨s',rfl,within⟩
  | cons a rest ih =>
    rw [List.foldlM_cons] at clipped ⊢
    obtain ⟨next,here,later⟩ := Option.bind_eq_some_iff.mp clipped
    obtain ⟨next',here',narrowed⟩ := clipWithin solid finite inside sane within here
    rw [here']
    exact ih narrowed later

theorem wholeWithin : whole.Within whole := ⟨Scalar.leSelf Scalar.lowestNumber,Scalar.leSelf Scalar.greatestNumber⟩

end

end Span

theorem Box.meetsOuter {inner outer : Box} {r : Ray} (solid : inner.Solid) (finite : outer.Finite)
    (inside : outer.contains inner = true) (sane : r.Finite) (meets : inner.meets r = true) :
    outer.meets r = true := by
  obtain ⟨t,clipped⟩ := Option.isSome_iff_exists.mp meets
  obtain ⟨t',clipped',_⟩ := Span.clipsWithin solid finite inside sane Axis.all Span.wholeWithin clipped
  exact Option.isSome_iff_exists.mpr ⟨t',clipped'⟩

end Sightline
