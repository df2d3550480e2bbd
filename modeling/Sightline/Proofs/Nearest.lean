import Sightline.Proofs.Walk
import Sightline.Scalar.Order

/-! Which hit a search for the closest one ends with. The triangles that the ray can get to are tried in
the order of the leaves, and what is kept is the first of those that lie closest among the triangles
tried so far; a distance that is no number is never closer than anything, and neither is one at the top
of the finite numbers. As only the tree tells what is tried, two layouts of one tree give one answer. -/
namespace Sightline

namespace Scalar

theorem ltOfNotLt {x y z : Scalar} (below : x < y) (number : Float32.isNaN z = false)
    (above : ¬z < y) : x < z := by
  obtain ⟨numberX,numberY⟩ := ltNumbers below
  rw [ltIff number numberY] at above
  rw [ltIff numberX number]
  have := rankLt below
  omega

end Scalar

namespace Tree

def boxed : Tree → List (List Box × List UInt32)
  | leaf b ts => [([b],ts)]
  | inner b l r => (l.boxed ++ r.boxed).map fun (boxes,ts) => (b :: boxes,ts)

def exposed (ray : Ray) (t : Tree) : List UInt32 :=
  (t.boxed.filter fun (boxes,_) => boxes.all fun b => b.meets ray).flatMap Prod.snd

theorem exposedInner (ray : Ray) (b : Box) (l r : Tree) : (inner b l r).exposed ray =
    if b.meets ray then l.exposed ray ++ r.exposed ray else [] := by
  cases meets : b.meets ray <;>
    simp [exposed,boxed,List.filter_map,Function.comp_def,List.flatMap_map,meets]

theorem visibleExposed (ray : Ray) (t : Tree) : t.visible ray = t.exposed ray := by
  induction t with
  | leaf b ts => cases meets : b.meets ray <;> simp [visible,exposed,boxed,meets]
  | inner b l r hl hr => rw [visible,exposedInner,hl,hr]

end Tree

structure Query.Meets (q : Query) (triangles : Array Triangle) (index : UInt32) (hit : Hit) : Prop where
  allowed : q.exclude ≠ some index
  crossed : ∃ t, triangles[index.toNat]? = some t ∧ t.culled q = false ∧
    t.crossing q.ray = some (hit.point,hit.edges)
  named : hit.triangle = index
  measured : hit.distanceSquared = q.ray.origin.distanceSquared hit.point

theorem Triangle.hitIff {t : Triangle} {q : Query} {index : UInt32} {hit : Hit} :
    t.hit q index = some hit ↔ t.culled q = false ∧ t.crossing q.ray = some (hit.point,hit.edges) ∧
      hit.triangle = index ∧ hit.distanceSquared = q.ray.origin.distanceSquared hit.point := by
  unfold Triangle.hit
  cases culled : t.culled q with
  | true => simp
  | false =>
    simp only [Bool.false_eq_true,if_false,Option.map_eq_some_iff,true_and]
    constructor
    · rintro ⟨⟨point,edges⟩,crossing,rfl⟩
      exact ⟨crossing,rfl,rfl⟩
    · rintro ⟨crossing,rfl,distance⟩
      exact ⟨_,crossing,by rw [← distance]⟩

theorem Query.attemptIff {q : Query} {triangles : Array Triangle} {index : UInt32} {hit : Hit} :
    q.attempt triangles index = .ok (some hit) ↔ q.Meets triangles index hit := by
  unfold attempt Fault.look
  constructor
  · intro tried
    split at tried
    · cases Except.ok.inj tried
    · rename_i allowed
      cases there : triangles[index.toNat]? with
      | none => simp [there,Except.map] at tried
      | some t =>
        obtain ⟨seen,crossing,named,measured⟩ :=
          Triangle.hitIff.mp (Except.ok.inj (by simpa only [there,Except.map] using tried))
        exact ⟨allowed,⟨t,there,seen,crossing⟩,named,measured⟩
  · rintro ⟨allowed,⟨t,there,seen,crossing⟩,named,measured⟩
    rw [if_neg allowed,there]
    exact congrArg Except.ok (Triangle.hitIff.mpr ⟨seen,crossing,named,measured⟩)

theorem Query.meetsInside {q : Query} {triangles : Array Triangle} {index : UInt32} {hit : Hit}
    (meets : q.Meets triangles index hit) : index.toNat < triangles.size := by
  obtain ⟨t,there,_⟩ := meets.crossed
  exact (Array.getElem?_eq_some_iff.mp there).1

theorem Query.meetsOnce {q : Query} {triangles : Array Triangle} {index : UInt32} {hit other : Hit}
    (meets : q.Meets triangles index hit) (again : q.Meets triangles index other) : other = hit := by
  have same := (attemptIff.mpr again).symm.trans (attemptIff.mpr meets)
  exact Option.some.inj (Except.ok.inj same)

namespace Hierarchy

/-- The first of the closest hits among the triangles tried, or that there is none. -/
inductive Nearest (triangles : Array Triangle) (q : Query) (tried : List UInt32) : Option Hit → Prop where
  | none (far : ∀ i ∈ tried, ∀ hit, q.Meets triangles i hit → ¬hit.distanceSquared < Scalar.greatest) :
      Nearest triangles q tried none
  | some {before after hit} (listed : tried = before ++ hit.triangle :: after)
      (meets : q.Meets triangles hit.triangle hit) (near : hit.distanceSquared < Scalar.greatest)
      (first : ∀ i ∈ before, ∀ other, q.Meets triangles i other →
        other.distanceSquared < Scalar.greatest → hit.distanceSquared < other.distanceSquared)
      (least : ∀ i ∈ after, ∀ other, q.Meets triangles i other →
        ¬other.distanceSquared < hit.distanceSquared) :
      Nearest triangles q tried (some hit)

section
variable {triangles : Array Triangle} {q : Query} {tried : List UInt32} {best : Option Hit}

theorem nearestMissed {index : UInt32} (nearest : Nearest triangles q tried best)
    (missed : ∀ hit, ¬q.Meets triangles index hit) : Nearest triangles q (tried ++ [index]) best := by
  cases nearest with
  | none far =>
    refine .none fun i member hit meets => ?_
    rcases List.mem_append.mp member with member | member
    · exact far i member hit meets
    · cases List.mem_singleton.mp member
      exact (missed hit meets).elim
  | @some before after hit listed meets near first least =>
    have listed : tried ++ [index] = before ++ hit.triangle :: (after ++ [index]) := by simp [listed]
    refine .some listed meets near first fun i member other => ?_
    rcases List.mem_append.mp member with member | member
    · exact least i member other
    · cases List.mem_singleton.mp member
      exact fun crossed => (missed other crossed).elim

/- A hit that is closer than the best one so far is closer than all before it: those that were closest
until then, and those further away, whose distances are numbers. -/
theorem nearestTaken {hit : Hit} (nearest : Nearest triangles q tried best)
    (meets : q.Meets triangles hit.triangle hit) :
    Nearest triangles q (tried ++ [hit.triangle]) (nearer best hit) := by
  cases nearest with
  | none far =>
    by_cases near : hit.distanceSquared < Scalar.greatest
    · rw [nearer,if_pos near]
      exact .some rfl meets near (fun i member other crossed reached =>
        (far i member other crossed reached).elim) (fun i member => nomatch member)
    · rw [nearer,if_neg near]
      refine .none fun i member other crossed => ?_
      rcases List.mem_append.mp member with member | member
      · exact far i member other crossed
      · cases List.mem_singleton.mp member
        rw [Query.meetsOnce meets crossed]
        exact near
  | @some before after old listed crossedOld nearOld first least =>
    by_cases closer : hit.distanceSquared < old.distanceSquared
    · rw [nearer,if_pos closer]
      refine .some rfl meets (Scalar.ltTrans closer nearOld) ?_ (fun i member => nomatch member)
      -- tried before the old hit, the old hit itself, or tried after it
      intro i member other crossed reached
      rw [listed] at member
      rcases List.mem_append.mp member with member | member
      · exact Scalar.ltTrans closer (first i member other crossed reached)
      · rcases List.mem_cons.mp member with rfl | member
        · rw [Query.meetsOnce crossedOld crossed]
          exact closer
        · exact Scalar.ltOfNotLt closer (Scalar.ltNumbers reached).1 (least i member other crossed)
    · rw [nearer,if_neg closer]
      have listed : tried ++ [hit.triangle] = before ++ old.triangle :: (after ++ [hit.triangle]) := by
        simp [listed]
      refine .some listed crossedOld nearOld first ?_
      intro i member other crossed
      rcases List.mem_append.mp member with member | member
      · exact least i member other crossed
      · cases List.mem_singleton.mp member
        rw [Query.meetsOnce meets crossed]
        exact closer

theorem scanNearest {rest : List UInt32} (inside : ∀ i ∈ rest, i.toNat < triangles.size)
    (nearest : Nearest triangles q tried best) :
    ∃ found, scan triangles q (fun best hit => .yield (nearer best hit)) best rest = .ok (.yield found) ∧
      Nearest triangles q (tried ++ rest) found := by
  induction rest generalizing tried best with
  | nil => exact ⟨best,rfl,by simpa using nearest⟩
  | cons index rest ih =>
    obtain ⟨here,later⟩ := List.forall_mem_cons.mp inside
    obtain ⟨hit,attempted⟩ := @attemptInside triangles q index here
    have split : tried ++ index :: rest = tried ++ [index] ++ rest := by simp
    rw [split]
    simp only [scan,attempted]
    cases hit with
    | none =>
      refine ih later (nearestMissed nearest fun hit meets => ?_)
      cases Except.ok.inj (attempted.symm.trans (Query.attemptIff.mpr meets))
    | some hit =>
      have meets := Query.attemptIff.mp attempted
      cases meets.named
      exact ih later (nearestTaken nearest meets)

theorem closestNearest {h : Hierarchy} {p : Plan} (checked : h.check triangles.size = .ok ())
    (complete : h.Complete p) (q : Query) : ∃ hit, h.closestHit triangles q = .ok hit ∧
      Nearest triangles q ((p.tree h.order).exposed q.ray) hit := by
  have inside := visibleInside checked p q.ray
  obtain ⟨hit,scanned,nearest⟩ := @scanNearest triangles q [] none _ inside (.none fun i member => nomatch member)
  rw [List.nil_append,Tree.visibleExposed] at nearest
  refine ⟨hit,?_,nearest⟩
  rw [closestHit,searchComplete complete,scanned]
  rfl

theorem searchNearest {h : Hierarchy} (checked : h.check triangles.size = .ok ()) (q : Query) :
    ∃ p hit, h.Complete p ∧ h.closestHit triangles q = .ok hit ∧
      Nearest triangles q ((p.tree h.order).exposed q.ray) hit := by
  obtain ⟨⟨p,complete⟩,_⟩ := (checkComplete h _).mp checked
  obtain ⟨hit,answer,nearest⟩ := closestNearest checked complete q
  exact ⟨p,hit,complete,answer,nearest⟩

theorem nearestFound {hit : Hit} (nearest : Nearest triangles q tried (some hit)) :
    hit.triangle ∈ tried ∧ q.Meets triangles hit.triangle hit ∧ hit.distanceSquared < Scalar.greatest := by
  cases nearest with
  | some listed meets near => exact ⟨by simp [listed],meets,near⟩

theorem nearestNone (nearest : Nearest triangles q tried best) : best = none ↔
    ∀ i ∈ tried, ∀ hit, q.Meets triangles i hit → ¬hit.distanceSquared < Scalar.greatest := by
  constructor
  · rintro rfl
    cases nearest with
    | none far => exact far
  · intro far
    cases nearest with
    | none => rfl
    | some listed meets near => exact (far _ (by simp [listed]) _ meets near).elim

end

theorem closestHitNearest {h : Hierarchy} {triangles : Array Triangle}
    (checked : h.check triangles.size = .ok ()) (q : Query) :
    ∃ t hit, h.tree? = some t ∧ h.closestHit triangles q = .ok hit ∧
      (hit = none ↔ ∀ i ∈ t.exposed q.ray, ∀ hit, q.Meets triangles i hit →
        ¬hit.distanceSquared < Scalar.greatest) ∧
      Nearest triangles q (t.exposed q.ray) hit ∧
      ∀ g : Hierarchy, g.check triangles.size = .ok () → g.tree? = some t →
        g.closestHit triangles q = .ok hit := by
  obtain ⟨⟨p,complete⟩,_⟩ := (checkComplete h _).mp checked
  have inside := visibleInside checked p q.ray
  obtain ⟨hit,scanned,nearest⟩ := @scanNearest triangles q [] none _ inside (.none fun i member => nomatch member)
  rw [List.nil_append,Tree.visibleExposed] at nearest
  refine ⟨p.tree h.order,hit,treeComplete complete,?_,nearestNone nearest,nearest,?_⟩
  · rw [closestHit,searchComplete complete,scanned]
    rfl
  · intro g checkedG spells
    obtain ⟨⟨r,completeG⟩,_⟩ := (checkComplete g _).mp checkedG
    have same := Option.some.inj ((treeComplete completeG).symm.trans spells)
    rw [closestHit,searchComplete completeG,same,scanned]
    rfl

/- The upper of the two triangles is hit, although its leaf is the last but one in the array. -/
theorem scatteredNearest : ∃ t hit, scattered.tree? = some t ∧ hit.triangle = 1 ∧
    scattered.closestHit scatteredPair downward = .ok (some hit) ∧
    Nearest scatteredPair downward (t.exposed downward.ray) (some hit) := by
  have named : (scattered.closestHit scatteredPair downward).toOption.map (·.map Hit.triangle) = some (some 1) := by
    decide +kernel
  obtain ⟨t,hit,spells,answer,_,nearest,_⟩ := closestHitNearest scatteredChecked downward
  rw [answer] at named
  obtain ⟨found,rfl,triangle⟩ := Option.map_eq_some_iff.mp (Option.some.inj named)
  exact ⟨t,found,spells,triangle,answer,nearest⟩

end Hierarchy
end Sightline
