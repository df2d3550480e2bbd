import Sightline.Proofs.Pruned

/-! Rays that start inside a box. The two planes of a slab around the start are crossed at parameters on both sides of
zero, or at zero itself, or at no number at all where the direction is not finite. So zero is never cut off: no bound
that is kept so far lies on the wrong side of it, and each axis keeps that. Whatever the direction is, a box lets such
a ray through, and so do all the boxes around that box; what lies in a leaf around the start is always tried. -/
namespace Sightline

namespace Scalar
variable {x : Scalar}

theorem zeroNeither (zero : ∃ s, x.toModel.unpack = .zero s) : ¬0 < x ∧ ¬x < 0 := by
  obtain ⟨below,above⟩ := sameIff.mp (zeroIff.mpr zero)
  exact ⟨fun positive => ltIrrefl _ (ltOfLtLe positive below),fun negative => ltIrrefl _ (ltOfLtLe negative above)⟩

theorem nanNeither (nan : Float32.isNaN x = true) : ¬0 < x ∧ ¬x < 0 := by
  refine ⟨notLtNan nan,fun negative => ?_⟩
  rw [(ltNumbers negative).1] at nan
  contradiction

theorem strayNeither (stray : Float32.isFinite y = false) : ¬0 < x / y ∧ ¬x / y < 0 := by
  rcases quotientStray stray with ⟨s,zero⟩ | nan
  · rw [zero]
    cases s <;> decide +kernel
  · exact nanNeither nan

end Scalar

namespace Span

structure Starts (s : Span) : Prop where
  near : ¬0 < s.near
  far : ¬s.far < 0

section
variable {s t : Span} {origin direction bottom top : Scalar} {b : Box} {r : Ray}

theorem wholeStarts : whole.Starts := ⟨by decide +kernel,by decide +kernel⟩

theorem interStarts (first : s.Starts) (second : t.Starts) : (s.inter t).Starts := by
  constructor
  · show ¬0 < ite _ _ _
    split
    · exact second.near
    · exact first.near
  · show ¬ite _ _ _ < 0
    split
    · exact second.far
    · exact first.far

theorem startsPasses (starts : s.Starts) : ¬(s.near > s.far ∨ s.far < 0) := by
  rintro (crossed | behind)
  · have zero := Scalar.leOfNotLt Scalar.zeroNumber (Scalar.ltNumbers crossed).1 starts.far
    exact starts.near (Scalar.ltOfLeLt zero crossed)
  · exact starts.far behind

/- A finite direction crosses the plane through the start at zero, between the two planes of the slab. -/
theorem betweenStarts (finiteB : Float32.isFinite bottom = true) (finiteT : Float32.isFinite top = true)
    (below : bottom ≤ origin) (above : origin ≤ top) (across : (direction == 0) = false) :
    (between origin direction bottom top).Starts := by
  cases finiteD : Float32.isFinite direction with
  | true =>
    have finiteO := Scalar.finiteBetween finiteB finiteT below above
    obtain ⟨near,far⟩ := planeBetween finiteO finiteD across finiteB finiteT finiteO below above
    have start : ∃ s, ((origin - origin) / direction).toModel.unpack = .zero s := by
      rcases Scalar.finiteCases finiteD with zero | ⟨_,_,_,_,steep⟩
      · rw [Scalar.zeroIff.mpr zero] at across
        contradiction
      · exact Scalar.zeroPlaced (Scalar.quotientZero (Scalar.differenceSelf finiteO) steep)
    obtain ⟨above,below⟩ := Scalar.zeroNeither start
    exact ⟨fun late => above (Scalar.ltOfLtLe late near),fun early => below (Scalar.ltOfLeLt far early)⟩
  | false =>
    constructor
    · show ¬0 < ite _ _ _
      split <;> exact (Scalar.strayNeither finiteD).1
    · show ¬ite _ _ _ < 0
      split <;> exact (Scalar.strayNeither finiteD).2

theorem clipStarts (finite : b.Finite) (inside : b.contains (.ofPoint r.origin) = true) (starts : s.Starts) (a : Axis) :
    ∃ t, s.clipAxis b r a = some t ∧ t.Starts := by
  obtain ⟨below,above⟩ := (Box.containsIff b _).mp inside a
  unfold clipAxis
  cases across : r.direction.component a == 0 with
  | true =>
    rw [clipParallel across]
    refine ⟨s,if_neg ?_,starts⟩
    rintro (left | right)
    · exact Scalar.ltIrrefl _ (Scalar.ltOfLeLt below left)
    · exact Scalar.ltIrrefl _ (Scalar.ltOfLtLe right above)
  | false =>
    have kept := interStarts starts (betweenStarts (finite.bottom a) (finite.top a) below above across)
    rw [clipAcross across]
    exact ⟨_,if_neg (startsPasses kept),kept⟩

theorem clipsStart (finite : b.Finite) (inside : b.contains (.ofPoint r.origin) = true) (starts : s.Starts)
    (axes : List Axis) : ∃ t, axes.foldlM (clipAxis b r) s = some t ∧ t.Starts := by
  induction axes generalizing s with
  | nil => exact ⟨s,rfl,starts⟩
  | cons a rest ih =>
    obtain ⟨next,here,kept⟩ := clipStarts finite inside starts a
    rw [List.foldlM_cons,here]
    exact ih kept

end
end Span

theorem Box.meetsInside {b : Box} {r : Ray} (finite : b.Finite) (inside : b.contains (.ofPoint r.origin) = true) :
    b.meets r = true := by
  obtain ⟨t,clipped,_⟩ := Span.clipsStart finite inside Span.wholeStarts Axis.all
  exact Option.isSome_iff_exists.mpr ⟨t,clipped⟩

theorem Box.meetsFromInside (b : Box) (r : Ray) (finite : b.Finite)
    (inside : ∀ a, b.bottom.component a ≤ r.origin.component a ∧ r.origin.component a ≤ b.top.component a) :
    b.meets r = true :=
  meetsInside finite ((containsIff b _).mpr inside)

theorem Box.meetsFromEdge :
    let b : Box := ⟨⟨0,0,2⟩,⟨1,1,2⟩⟩
    let r : Ray := ⟨⟨1,0.5,2⟩,⟨Scalar.ofWord 0x7fc00000,Scalar.ofWord 0x80000000,Scalar.ofWord 0xff800000⟩⟩
    (∀ a, b.bottom.component a ≤ r.origin.component a ∧ r.origin.component a ≤ b.top.component a) ∧
      b.meets r = true := by
  intro b r
  have finite : ∀ a ∈ Axis.all, Float32.isFinite (b.bottom.component a) = true ∧
      Float32.isFinite (b.top.component a) = true := by decide +kernel
  have inside : ∀ a ∈ Axis.all, b.bottom.component a ≤ r.origin.component a ∧
      r.origin.component a ≤ b.top.component a := by decide +kernel
  have around a := inside a a.memAll
  exact ⟨around,meetsFromInside b r ⟨fun a => (finite a a.memAll).1,fun a => (finite a a.memAll).2⟩ around⟩

namespace Tree
variable {t : Tree} {ray : Ray} {b : Box} {ts : List UInt32}

theorem endsInside (nested : t.Nested) (leaf : (b,ts) ∈ t.ends) : t.bounds.contains b = true := by
  induction t with
  | leaf c us =>
    obtain ⟨rfl,_⟩ := Prod.mk.inj (List.mem_singleton.mp leaf)
    exact Box.containsSelf nested.finite
  | inner c l r hl hr =>
    obtain ⟨_,⟨insideL,nestedL⟩,insideR,nestedR⟩ := nested
    rcases List.mem_append.mp leaf with left | right
    · exact Box.containsTrans insideL (hl nestedL left)
    · exact Box.containsTrans insideR (hr nestedR right)

theorem aroundMeets (nested : t.Nested) (leaf : (b,ts) ∈ t.ends) (inside : b.contains (.ofPoint ray.origin) = true) :
    t.bounds.meets ray = true :=
  Box.meetsInside (nestedSolid nested).finite (Box.containsTrans (endsInside nested leaf) inside)

theorem exposedStart (nested : t.Nested) (leaf : (b,ts) ∈ t.ends) (inside : b.contains (.ofPoint ray.origin) = true) :
    ts ⊆ t.exposed ray := by
  induction t with
  | leaf c us =>
    have around := aroundMeets nested leaf inside
    have meets : c.meets ray = true := around
    obtain ⟨_,rfl⟩ := Prod.mk.inj (List.mem_singleton.mp leaf)
    simp [exposed,boxed,meets]
  | inner c l r hl hr =>
    have around := aroundMeets nested leaf inside
    have meets : c.meets ray = true := around
    obtain ⟨_,⟨_,nestedL⟩,_,nestedR⟩ := nested
    rw [exposedInner,if_pos meets]
    rcases List.mem_append.mp leaf with left | right
    · exact List.subset_append_of_subset_left _ (hl nestedL left)
    · exact List.subset_append_of_subset_right _ (hr nestedR right)

end Tree
end Sightline
