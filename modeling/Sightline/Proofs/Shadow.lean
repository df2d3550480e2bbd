import Sightline.Proofs.Extremes
import Sightline.Proofs.Nearest

/-! What lies in the way of a light. The search for a shadow ends at the first triangle that is closer than
the light, the search for the closest hit never ends early; both try the same triangles in the same order.
So light is blocked when any triangle tried lies below its distance, and then the closest one lies below it
too. The one distance for which the two may differ is infinity, below which lies the greatest finite number,
where no hit is ever the closest. A light whose distance is no number is not blocked by anything. -/
namespace Sightline.Hierarchy

def stopBelow (limit : Scalar) (_ : Bool) (hit : Hit) : ForInStep Bool :=
  if hit.distanceSquared < limit then .done true else .yield false

def Reached (triangles : Array Triangle) (q : Query) (limit : Scalar) (tried : List UInt32) : Prop :=
  ∃ i ∈ tried, ∃ hit, q.Meets triangles i hit ∧ hit.distanceSquared < limit

section
variable {triangles : Array Triangle} {q : Query} {limit : Scalar} {tried : List UInt32}

theorem reachedSkip {index : UInt32}
    (far : ∀ hit, q.Meets triangles index hit → ¬hit.distanceSquared < limit) :
    Reached triangles q limit (index :: tried) ↔ Reached triangles q limit tried := by
  constructor
  · intro reached
    obtain ⟨i,member,hit,meets,near⟩ := reached
    rcases List.mem_cons.mp member with same | later
    · subst same
      exact (far hit meets near).elim
    · exact ⟨i,later,hit,meets,near⟩
  · intro reached
    obtain ⟨i,member,found⟩ := reached
    exact ⟨i,List.mem_cons_of_mem _ member,found⟩

theorem scanReached (inside : ∀ i ∈ tried, i.toNat < triangles.size) :
    ∃ step, scan triangles q (stopBelow limit) false tried = .ok step ∧
      (step.value = true ↔ Reached triangles q limit tried) := by
  induction tried with
  | nil => exact ⟨_,rfl,by simp [Reached,ForInStep.value]⟩
  | cons index rest ih =>
    obtain ⟨here,later⟩ := List.forall_mem_cons.mp inside
    obtain ⟨hit,attempted⟩ := @attemptInside triangles q index here
    simp only [scan,attempted]
    cases hit with
    | none =>
      rw [reachedSkip]
      · exact ih later
      · intro hit meets
        cases Except.ok.inj (attempted.symm.trans (Query.attemptIff.mpr meets))
    | some hit =>
      have meets := Query.attemptIff.mp attempted
      by_cases near : hit.distanceSquared < limit
      · simp only [stopBelow,if_pos near]
        exact ⟨_,rfl,by simpa [ForInStep.value] using ⟨index,List.mem_cons_self,hit,meets,near⟩⟩
      · simp only [stopBelow,if_neg near]
        rw [reachedSkip]
        · exact ih later
        · intro other again
          rwa [Query.meetsOnce meets again]

theorem reachedNearest {best : Option Hit} (bounded : limit ≠ Scalar.infinity)
    (nearest : Nearest triangles q tried best) :
    Reached triangles q limit tried ↔ ∃ hit, best = some hit ∧ hit.distanceSquared < limit := by
  constructor
  · intro reached
    obtain ⟨i,member,hit,meets,near⟩ := reached
    have finite := Scalar.ltOfLtLe near (Scalar.leGreatest (Scalar.ltNumbers near).2 bounded)
    cases nearest with
    | none far => exact (far i member hit meets finite).elim
    | @some before after best listed crossed nearBest first least =>
      refine ⟨best,rfl,?_⟩
      rw [listed] at member
      rcases List.mem_append.mp member with member | member
      · exact Scalar.ltTrans (first i member hit meets finite) near
      · rcases List.mem_cons.mp member with same | member
        · subst same
          rwa [Query.meetsOnce meets crossed]
        · have numbers := (Scalar.ltNumbers nearBest).1
          have closer := Scalar.leOfNotLt numbers (Scalar.ltNumbers near).1 (least i member hit meets)
          exact Scalar.ltOfLeLt closer near
  · intro found
    obtain ⟨hit,same,near⟩ := found
    subst same
    cases nearest with
    | some listed meets => exact ⟨hit.triangle,by simp [listed],hit,meets,near⟩

theorem occludedReached {h : Hierarchy} {p : Plan} (checked : h.check triangles.size = .ok ())
    (complete : h.Complete p) (q : Query) (light : Vec3) :
    ∃ blocked, h.occluded triangles q light = .ok blocked ∧ (blocked = true ↔
      Reached triangles q (q.ray.origin.distanceSquared light) ((p.tree h.order).exposed q.ray)) := by
  have inside := visibleInside checked p q.ray
  obtain ⟨step,stopped,reached⟩ := @scanReached triangles q (q.ray.origin.distanceSquared light) _ inside
  rw [Tree.visibleExposed] at reached
  refine ⟨step.value,?_,reached⟩
  rw [occluded,searchComplete complete]
  exact congrArg (Except.map ForInStep.value) stopped

end

theorem occludedNearer {h : Hierarchy} {triangles : Array Triangle}
    (checked : h.check triangles.size = .ok ()) (q : Query) (light : Vec3)
    (bounded : q.ray.origin.distanceSquared light ≠ Scalar.infinity) :
    ∃ hit blocked, h.closestHit triangles q = .ok hit ∧ h.occluded triangles q light = .ok blocked ∧
      (blocked = true ↔
        ∃ best, hit = some best ∧ best.distanceSquared < q.ray.origin.distanceSquared light) ∧
      (Float32.isNaN (q.ray.origin.distanceSquared light) = true → blocked = false ∧
        ∀ best, hit = some best → ¬best.distanceSquared < q.ray.origin.distanceSquared light) := by
  obtain ⟨⟨p,complete⟩,_⟩ := (checkComplete h _).mp checked
  obtain ⟨hit,closest,nearest⟩ := closestNearest checked complete q
  obtain ⟨blocked,answer,reached⟩ := occludedReached checked complete q light
  rw [reachedNearest bounded nearest] at reached
  refine ⟨hit,blocked,closest,answer,reached,?_⟩
  intro nan
  refine ⟨Bool.eq_false_iff.mpr fun blocked => ?_,fun best _ => Scalar.notLtNan nan⟩
  obtain ⟨best,_,below⟩ := reached.mp blocked
  exact Scalar.notLtNan nan below

-- a light below both triangles, and one between the start of the ray and the upper of them
example : (scattered.occluded scatteredPair downward ⟨0.25,0.25,-1⟩).toOption = some true ∧
    (scattered.occluded scatteredPair downward ⟨0.25,0.25,2⟩).toOption = some false := by
  decide +kernel

theorem scatteredShadow : ∃ hit blocked, scattered.closestHit scatteredPair downward = .ok hit ∧
    scattered.occluded scatteredPair downward ⟨0.25,0.25,-1⟩ = .ok blocked ∧
    (blocked = true ↔ ∃ best, hit = some best ∧
      best.distanceSquared < downward.ray.origin.distanceSquared ⟨0.25,0.25,-1⟩) := by
  obtain ⟨hit,blocked,closest,answer,agree,_⟩ :=
    occludedNearer scatteredChecked downward ⟨0.25,0.25,-1⟩ (by decide +kernel)
  exact ⟨hit,blocked,closest,answer,agree⟩

end Sightline.Hierarchy
