import Sightline.Proofs.Missed
import Sightline.Proofs.Shadow

/-! What it does to a search to leave triangles out. The boxes that are crossed depend on the ray alone, so all
searches along one ray try the same triangles, and a filter only takes some of the hits away. A closest hit that
is not taken away stays the first of the closest; if it is, no hit that is left is closer. Without culling there
are all the hits that there are with it, and where every triangle has two sides there are no others. -/
namespace Sightline

namespace Query
variable {triangles : Array Triangle} {ray : Ray} {exclude : Option UInt32} {c : Culling} {index : UInt32} {hit : Hit}

structure Narrows (narrow wide : Query) (triangles : Array Triangle) : Prop where
  ray : narrow.ray = wide.ray
  kept : ∀ i hit, narrow.Meets triangles i hit → wide.Meets triangles i hit

theorem meetsExcluding {t : UInt32} : Meets ⟨ray,some t,c⟩ triangles index hit ↔
    index ≠ t ∧ Meets ⟨ray,none,c⟩ triangles index hit := by
  constructor
  · intro meets
    have other : index ≠ t := fun same => meets.allowed (congrArg some same.symm)
    exact ⟨other,nofun,meets.crossed,meets.named,meets.measured⟩
  · rintro ⟨other,meets⟩
    refine ⟨?_,meets.crossed,meets.named,meets.measured⟩
    exact fun same => other (Option.some.inj same).symm

theorem meetsUnculled (meets : Meets ⟨ray,exclude,.backfaces⟩ triangles index hit) :
    Meets ⟨ray,exclude,.disabled⟩ triangles index hit := by
  obtain ⟨t,there,_,crossing⟩ := meets.crossed
  exact ⟨meets.allowed,⟨t,there,rfl,crossing⟩,meets.named,meets.measured⟩

theorem narrowsExcluding (t : UInt32) : Narrows ⟨ray,some t,c⟩ ⟨ray,none,c⟩ triangles :=
  ⟨rfl,fun _ _ meets => (meetsExcluding.mp meets).2⟩

theorem narrowsCulling : Narrows ⟨ray,exclude,.backfaces⟩ ⟨ray,exclude,.disabled⟩ triangles :=
  ⟨rfl,fun _ _ => meetsUnculled⟩

theorem narrowsTwoSided (twoSided : ∀ t ∈ triangles, t.twoSided = true) :
    Narrows ⟨ray,exclude,.disabled⟩ ⟨ray,exclude,.backfaces⟩ triangles := by
  refine ⟨rfl,fun i hit meets => ?_⟩
  obtain ⟨t,there,_,crossing⟩ := meets.crossed
  have seen : t.culled ⟨ray,exclude,.backfaces⟩ = false := by
    rw [Triangle.culled,twoSided t (Array.mem_of_getElem? there)]
    rfl
  exact ⟨meets.allowed,⟨t,there,seen,crossing⟩,meets.named,meets.measured⟩

end Query

namespace Hierarchy
section
variable {triangles : Array Triangle} {q narrow wide : Query} {tried : List UInt32} {best : Option Hit}

theorem nearestBefore {hit other : Hit} {before after between : List UInt32}
    (meets : q.Meets triangles hit.triangle hit) (near : hit.distanceSquared < Scalar.greatest)
    (least : ∀ i ∈ after, ∀ third, q.Meets triangles i third → ¬third.distanceSquared < hit.distanceSquared)
    (meetsOther : q.Meets triangles other.triangle other)
    (first : ∀ i ∈ before ++ between, ∀ third, q.Meets triangles i third →
      third.distanceSquared < Scalar.greatest → other.distanceSquared < third.distanceSquared)
    {rest : List UInt32} (listed : hit.triangle :: after = between ++ other.triangle :: rest) :
    other = hit := by
  cases between with
  | nil =>
    have same : hit.triangle = other.triangle := (List.cons.inj listed).1
    exact Query.meetsOnce meets (same ▸ meetsOther)
  | cons i between =>
    obtain ⟨rfl,later⟩ := List.cons.inj listed
    have closer := first hit.triangle (by simp) hit meets near
    exact (least other.triangle (by simp [later]) other meetsOther closer).elim

theorem nearestUnique {again : Option Hit} (nearest : Nearest triangles q tried best)
    (other : Nearest triangles q tried again) : again = best := by
  cases nearest with
  | none far => exact (nearestNone other).mpr far
  | @some before after hit listed meets near first least =>
    cases other with
    | none far => exact (far _ (by simp [listed]) hit meets near).elim
    | @some before' after' hit' listed' meets' near' first' least' =>
      rcases List.append_eq_append_iff.mp (listed.symm.trans listed') with ⟨between,rfl,rest⟩ | ⟨between,rfl,rest⟩
      · exact congrArg some (nearestBefore meets near least meets' first' rest)
      · exact congrArg some (nearestBefore meets' near' least' meets first rest).symm

theorem nearestKept {hit : Hit} (narrows : narrow.Narrows wide triangles)
    (nearest : Nearest triangles wide tried (some hit)) (kept : narrow.Meets triangles hit.triangle hit) :
    Nearest triangles narrow tried (some hit) := by
  cases nearest with
  | some listed meets near first least =>
    refine .some listed kept near ?_ ?_
    · exact fun i member other crossed => first i member other (narrows.kept i other crossed)
    · exact fun i member other crossed => least i member other (narrows.kept i other crossed)

theorem nearestNarrowed (narrows : narrow.Narrows wide triangles) (nearest : Nearest triangles wide tried none) :
    Nearest triangles narrow tried none := by
  cases nearest with
  | none far => exact .none fun i member hit meets => far i member hit (narrows.kept i hit meets)

theorem nearestWidened {hit : Hit} (narrows : narrow.Narrows wide triangles)
    (nearest : Nearest triangles narrow tried (some hit)) (widened : Nearest triangles wide tried best) :
    ∃ closer, best = some closer ∧ closer.distanceSquared ≤ hit.distanceSquared := by
  obtain ⟨member,meets,near⟩ := nearestFound nearest
  have crossed := narrows.kept _ hit meets
  cases best with
  | none => exact ((nearestNone widened).mp rfl _ member hit crossed near).elim
  | some closer =>
    have reached := (nearestFound widened).2.2
    refine ⟨closer,rfl,Scalar.leOfNotLt (Scalar.ltNumbers reached).1 (Scalar.ltNumbers near).1 ?_⟩
    exact nearestLeast widened member crossed

theorem nearestEqual (narrows : narrow.Narrows wide triangles) (widens : wide.Narrows narrow triangles)
    (nearest : Nearest triangles narrow tried best) : Nearest triangles wide tried best := by
  cases best with
  | none => exact nearestNarrowed widens nearest
  | some hit => exact nearestKept widens nearest (narrows.kept _ hit (nearestFound nearest).2.1)

theorem reachedWidened {limit : Scalar} (narrows : narrow.Narrows wide triangles)
    (reached : Reached triangles narrow limit tried) : Reached triangles wide limit tried := by
  obtain ⟨i,member,hit,meets,near⟩ := reached
  exact ⟨i,member,hit,narrows.kept i hit meets,near⟩

variable {h : Hierarchy} {p : Plan}

theorem answerNearest (checked : h.check triangles.size = .ok ()) (complete : h.Complete p) :
    h.closestHit triangles q = .ok best ↔ Nearest triangles q ((p.tree h.order).exposed q.ray) best := by
  obtain ⟨hit,answer,nearest⟩ := closestNearest checked complete q
  constructor
  · intro found
    cases Except.ok.inj (found.symm.trans answer)
    exact nearest
  · intro other
    rw [answer,nearestUnique nearest other]

theorem blockedReached {light : Vec3} (checked : h.check triangles.size = .ok ()) (complete : h.Complete p) :
    h.occluded triangles q light = .ok true ↔
      Reached triangles q (q.ray.origin.distanceSquared light) ((p.tree h.order).exposed q.ray) := by
  obtain ⟨blocked,answer,reached⟩ := occludedReached checked complete q light
  rw [answer,← reached]
  exact ⟨Except.ok.inj,congrArg Except.ok⟩

theorem closestEqual (checked : h.check triangles.size = .ok ()) (narrows : narrow.Narrows wide triangles)
    (widens : wide.Narrows narrow triangles) :
    h.closestHit triangles narrow = h.closestHit triangles wide := by
  obtain ⟨⟨p,complete⟩,_⟩ := (checkComplete h _).mp checked
  obtain ⟨best,answer,nearest⟩ := closestNearest checked complete narrow
  have same := nearestEqual narrows widens nearest
  rw [narrows.ray] at same
  rw [answer,(answerNearest checked complete).mpr same]

theorem occludedEqual (checked : h.check triangles.size = .ok ()) (narrows : narrow.Narrows wide triangles)
    (widens : wide.Narrows narrow triangles) (light : Vec3) :
    h.occluded triangles narrow light = h.occluded triangles wide light := by
  obtain ⟨⟨p,complete⟩,_⟩ := (checkComplete h _).mp checked
  obtain ⟨blocked,answer,reached⟩ := occludedReached checked complete narrow light
  obtain ⟨blocked',answer',reached'⟩ := occludedReached checked complete wide light
  rw [narrows.ray] at reached
  have same : blocked = true ↔ blocked' = true :=
    reached.trans (Iff.trans ⟨reachedWidened narrows,reachedWidened widens⟩ reached'.symm)
  rw [answer,answer',Bool.eq_iff_iff.mpr same]

end

theorem filterOnly {h : Hierarchy} {triangles : Array Triangle} (checked : h.check triangles.size = .ok ())
    (ray : Ray) (c : Culling) :
    (∃ answer, h.closestHit triangles ⟨ray,none,c⟩ = .ok answer) ∧
    (∀ hit, h.closestHit triangles ⟨ray,none,c⟩ = .ok (some hit) →
      (∀ t, t ≠ hit.triangle → h.closestHit triangles ⟨ray,some t,c⟩ = .ok (some hit)) ∧
      ∃ answer, h.closestHit triangles ⟨ray,some hit.triangle,c⟩ = .ok answer ∧
        ∀ next, answer = some next →
          next.triangle ≠ hit.triangle ∧ hit.distanceSquared ≤ next.distanceSquared) ∧
    (h.closestHit triangles ⟨ray,none,c⟩ = .ok none →
      ∀ t, h.closestHit triangles ⟨ray,some t,c⟩ = .ok none) ∧
    (∀ exclude hit, h.closestHit triangles ⟨ray,exclude,.backfaces⟩ = .ok (some hit) →
      ∃ closer, h.closestHit triangles ⟨ray,exclude,.disabled⟩ = .ok (some closer) ∧
        closer.distanceSquared ≤ hit.distanceSquared) ∧
    (∀ exclude light, h.occluded triangles ⟨ray,exclude,.backfaces⟩ light = .ok true →
      h.occluded triangles ⟨ray,exclude,.disabled⟩ light = .ok true) ∧
    ((∀ t ∈ triangles, t.twoSided = true) → ∀ exclude,
      h.closestHit triangles ⟨ray,exclude,.backfaces⟩ = h.closestHit triangles ⟨ray,exclude,.disabled⟩ ∧
      ∀ light, h.occluded triangles ⟨ray,exclude,.backfaces⟩ light =
        h.occluded triangles ⟨ray,exclude,.disabled⟩ light) := by
  obtain ⟨⟨p,complete⟩,_⟩ := (checkComplete h _).mp checked
  have nearest q best : h.closestHit triangles q = .ok best ↔
      Nearest triangles q ((p.tree h.order).exposed q.ray) best := answerNearest checked complete
  refine ⟨(checkedAnswers checked _).1,fun hit found => ?_,fun none t => ?_,fun exclude hit found => ?_,
    fun exclude light blocked => ?_,fun twoSided exclude => ?_⟩
  · have first := (nearest _ _).mp found
    refine ⟨fun t other => ?_,?_⟩
    · have kept := Query.meetsExcluding.mpr ⟨other.symm,(nearestFound first).2.1⟩
      exact (nearest _ _).mpr (nearestKept (Query.narrowsExcluding t) first kept)
    · obtain ⟨answer,answered,second⟩ := closestNearest checked complete ⟨ray,some hit.triangle,c⟩
      refine ⟨answer,answered,fun next same => ?_⟩
      rw [same] at second
      obtain ⟨closer,own,below⟩ := nearestWidened (Query.narrowsExcluding hit.triangle) second first
      cases own
      exact ⟨(Query.meetsExcluding.mp (nearestFound second).2.1).1,below⟩
  · exact (nearest _ _).mpr (nearestNarrowed (Query.narrowsExcluding t) ((nearest _ _).mp none))
  · obtain ⟨best,answered,widened⟩ := closestNearest checked complete ⟨ray,exclude,.disabled⟩
    obtain ⟨closer,rfl,below⟩ := nearestWidened Query.narrowsCulling ((nearest _ _).mp found) widened
    exact ⟨closer,answered,below⟩
  · have reached := (blockedReached checked complete).mp blocked
    exact (blockedReached checked complete).mpr (reachedWidened Query.narrowsCulling reached)
  · have widens : Query.Narrows ⟨ray,exclude,.disabled⟩ ⟨ray,exclude,.backfaces⟩ triangles :=
      Query.narrowsTwoSided twoSided
    exact ⟨closestEqual checked Query.narrowsCulling widens,occludedEqual checked Query.narrowsCulling widens⟩

theorem scatteredFilter : ∃ hit next, hit.triangle = 1 ∧ next.triangle = 0 ∧
    scattered.closestHit scatteredPair ⟨downward.ray,none,.backfaces⟩ = .ok (some hit) ∧
    scattered.closestHit scatteredPair ⟨downward.ray,some 0,.backfaces⟩ = .ok (some hit) ∧
    scattered.closestHit scatteredPair ⟨downward.ray,some 1,.backfaces⟩ = .ok (some next) ∧
    hit.distanceSquared ≤ next.distanceSquared ∧
    scattered.closestHit scatteredPair ⟨downward.ray,none,.disabled⟩ = .ok (some hit) := by
  obtain ⟨⟨answer,answered⟩,filtered,_,_,_,both⟩ := filterOnly scatteredChecked downward.ray .backfaces
  have upper : (scattered.closestHit scatteredPair ⟨downward.ray,none,.backfaces⟩).toOption.map
      (·.map Hit.triangle) = some (some 1) := by decide +kernel
  have lower : (scattered.closestHit scatteredPair ⟨downward.ray,some 1,.backfaces⟩).toOption.map
      (·.map Hit.triangle) = some (some 0) := by decide +kernel
  have twoSided : ∀ t ∈ scatteredPair, t.twoSided = true := by decide +kernel
  rw [answered] at upper
  obtain ⟨hit,rfl,named⟩ := Option.map_eq_some_iff.mp (Option.some.inj upper)
  obtain ⟨others,without,excluded,further⟩ := filtered hit answered
  rw [named] at others excluded
  rw [excluded] at lower
  obtain ⟨next,rfl,below⟩ := Option.map_eq_some_iff.mp (Option.some.inj lower)
  exact ⟨hit,next,named,below,answered,others 0 (by decide),excluded,(further next rfl).2,
    (both twoSided none).1.symm.trans answered⟩

end Hierarchy
end Sightline
