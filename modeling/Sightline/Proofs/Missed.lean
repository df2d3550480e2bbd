import Sightline.Proofs.Bounds
import Sightline.Proofs.Nearest

/-! What a search can miss. What it finds is always there, but a triangle is only tried when the ray gets
through its box and all boxes above it. So a search ends with what trying every triangle ends with exactly when
one of the closest triangles is among those that the ray gets to. The boxes do not see to that: they are not
padded, and what a ray does to a box is rounded in another way than what it does to a triangle, so that a ray
which runs through a triangle close to its edge can be turned away by the box. -/
namespace Sightline

namespace Hierarchy

inductive Exhaustive (triangles : Array Triangle) (q : Query) : Option Hit → Prop where
  | none (far : ∀ i hit, q.Meets triangles i hit → ¬hit.distanceSquared < Scalar.greatest) :
      Exhaustive triangles q none
  | some {hit} (meets : q.Meets triangles hit.triangle hit) (near : hit.distanceSquared < Scalar.greatest)
      (least : ∀ i other, q.Meets triangles i other → ¬other.distanceSquared < hit.distanceSquared) :
      Exhaustive triangles q (some hit)

section
variable {triangles : Array Triangle} {q : Query} {tried : List UInt32} {best : Option Hit}

theorem nearestLeast {hit other : Hit} {i : UInt32} (nearest : Nearest triangles q tried (some hit))
    (member : i ∈ tried) (meets : q.Meets triangles i other) : ¬other.distanceSquared < hit.distanceSquared := by
  cases nearest with
  | some listed meetsHit near first least =>
    intro closer
    rw [listed] at member
    rcases List.mem_append.mp member with member | member
    · have further := first i member other meets (Scalar.ltTrans closer near)
      exact Scalar.ltIrrefl _ (Scalar.ltTrans closer further)
    · rcases List.mem_cons.mp member with rfl | member
      · rw [Query.meetsOnce meetsHit meets] at closer
        exact Scalar.ltIrrefl _ closer
      · exact least i member other meets closer

theorem nearestAll (nearest : Nearest triangles q tried best)
    (all : ∀ i hit, q.Meets triangles i hit → i ∈ tried) : Exhaustive triangles q best := by
  cases best with
  | none => exact .none fun i hit meets => (nearestNone nearest).mp rfl i (all i hit meets) hit meets
  | some hit =>
    obtain ⟨_,meets,near⟩ := nearestFound nearest
    exact .some meets near fun i other crossed => nearestLeast nearest (all i other crossed) crossed

theorem nearestExhaustive (nearest : Nearest triangles q tried best) : Exhaustive triangles q best ↔
    ((∃ i hit, q.Meets triangles i hit ∧ hit.distanceSquared < Scalar.greatest) →
      ∃ hit, hit.triangle ∈ tried ∧ Exhaustive triangles q (some hit)) := by
  constructor
  · intro exhaustive reached
    cases best with
    | none =>
      obtain ⟨i,hit,meets,near⟩ := reached
      cases exhaustive with
      | none far => exact (far i hit meets near).elim
    | some hit => exact ⟨hit,(nearestFound nearest).1,exhaustive⟩
  · intro among
    cases best with
    | none =>
      refine .none fun i hit meets near => ?_
      obtain ⟨other,member,closest⟩ := among ⟨i,hit,meets,near⟩
      cases closest with
      | some meetsOther nearOther _ => exact (nearestNone nearest).mp rfl _ member other meetsOther nearOther
    | some hit =>
      obtain ⟨_,meets,near⟩ := nearestFound nearest
      obtain ⟨other,member,closest⟩ := among ⟨_,hit,meets,near⟩
      cases closest with
      | some meetsOther nearOther least =>
        refine .some meets near fun i third crossed closer => least i third crossed ?_
        exact Scalar.ltOfNotLt closer (Scalar.ltNumbers nearOther).1 (nearestLeast nearest member meetsOther)

end

theorem builtExhaustive {triangles : List Triangle} {h : Hierarchy} (built : (build triangles).result = .ok h)
    (q : Query) : ∃ t answer, h.tree? = some t ∧ h.closestHit triangles.toArray q = .ok answer ∧
      (∀ hit, answer = some hit → q.Meets triangles.toArray hit.triangle hit ∧
        hit.distanceSquared < Scalar.greatest) ∧
      ((∀ i hit, q.Meets triangles.toArray i hit → i ∈ t.exposed q.ray) →
        Exhaustive triangles.toArray q answer) ∧
      (Exhaustive triangles.toArray q answer ↔
        ((∃ i hit, q.Meets triangles.toArray i hit ∧ hit.distanceSquared < Scalar.greatest) →
          ∃ hit, hit.triangle ∈ t.exposed q.ray ∧ Exhaustive triangles.toArray q (some hit))) := by
  have checked : h.check triangles.toArray.size = .ok () := builtAccepted built
  obtain ⟨p,answer,complete,answered,nearest⟩ := searchNearest checked q
  refine ⟨p.tree h.order,answer,treeComplete complete,answered,?_,nearestAll nearest,nearestExhaustive nearest⟩
  intro hit found
  rw [found] at nearest
  exact (nearestFound nearest).2

def paneDepth : Scalar := Scalar.ofWord 0x3f638e3a

def paneCorners : Array Vertex :=
  #[⟨⟨1,-1,paneDepth⟩,.unitZ⟩,⟨⟨3,-1,paneDepth⟩,.unitZ⟩,⟨⟨1,1,paneDepth⟩,.unitZ⟩]

def pane : Triangle :=
  .ofPoints ⟨1,-1,paneDepth⟩ ⟨3,-1,paneDepth⟩ ⟨1,1,paneDepth⟩ ⟨0,1,2⟩ .one false

def paneBoxed : Hierarchy := ⟨#[.leaf (.ofBox pane.bounds) 0 1],#[0]⟩

theorem paneFinite : ∀ v ∈ paneCorners, v.position.Finite := by
  have numbers : ∀ v ∈ paneCorners, ∀ a ∈ Axis.all, Float32.isFinite (v.position.component a) = true := by
    decide +kernel
  exact fun v member a => numbers v member a a.memAll

theorem paneBuilt : (build [pane]).result = .ok paneBoxed := by
  have tree : Tree.build (Item.ofTriangles [pane]) = .ofItems (Item.ofTriangles [pane]) :=
    Tree.buildAtLeaf (.inl (by decide))
  rw [buildLaid (by simp) (by decide),tree,if_pos (by decide)]
  decide +kernel

def straight : Query := ⟨⟨⟨1.5,0,0⟩,⟨0,0,1⟩⟩,none,.disabled⟩

theorem paneFound : ∃ hit, paneBoxed.closestHit #[pane] straight = .ok (some hit) ∧
    Exhaustive #[pane] straight (some hit) := by
  obtain ⟨t,answer,spelled,answered,_,all,_⟩ := builtExhaustive paneBuilt straight
  have exposed : (paneBoxed.tree?.map (Tree.exposed straight.ray)) = some [0] := by decide +kernel
  rw [spelled] at exposed
  have exhaustive := all fun i hit meets => by
    have inside : i.toNat < 1 := Query.meetsInside meets
    rw [Option.some.inj exposed,List.mem_singleton,← UInt32.toNat_inj]
    exact Nat.lt_one_iff.mp inside
  have found : ((paneBoxed.closestHit #[pane] straight).toOption.map Option.isSome) = some true := by
    decide +kernel
  cases answer with
  | none => rw [answered] at found; contradiction
  | some hit => exact ⟨hit,answered,exhaustive⟩

/- The ray crosses the plane of the pane on the inner side of the edge, an eighth of the last digit of a number
just below one from it. Where the ray gets to the edge is rounded up, though, and the box is behind it by then. -/
def grazing : Query := ⟨⟨⟨Scalar.ofWord 0xb3900000,0,0⟩,⟨1.125,0,1⟩⟩,none,.disabled⟩

theorem paneMissed : (∀ v ∈ paneCorners, v.position.Finite) ∧
    Triangle.ofFace paneCorners ⟨0,1,2⟩ .one false = .ok pane ∧
    grazing.ray.origin.Finite ∧ grazing.ray.direction.Finite ∧ grazing.ray.direction ≠ .zero ∧
    ∃ h hit, (build [pane]).result = .ok h ∧ h.closestHit #[pane] grazing = .ok none ∧
      grazing.Meets #[pane] 0 hit ∧ hit.distanceSquared < Scalar.greatest ∧
      ¬Exhaustive #[pane] grazing none := by
  have finite : (∀ a ∈ Axis.all, Float32.isFinite (grazing.ray.origin.component a) = true) ∧
      ∀ a ∈ Axis.all, Float32.isFinite (grazing.ray.direction.component a) = true := by decide +kernel
  have tried : grazing.attempt #[pane] 0 = .ok (some ⟨0,⟨1,0,paneDepth⟩,Scalar.ofWord 0x3fe522c7,
      ⟨1,Scalar.ofWord 0x3f3504f1,0⟩⟩) := by decide +kernel
  have near : Scalar.ofWord 0x3fe522c7 < Scalar.greatest := by decide +kernel
  have meets := Query.attemptIff.mp tried
  refine ⟨paneFinite,by decide +kernel,fun a => finite.1 a a.memAll,fun a => finite.2 a a.memAll,by decide +kernel,
    paneBoxed,_,paneBuilt,by decide +kernel,meets,near,fun exhaustive => ?_⟩
  cases exhaustive with
  | none far => exact far 0 _ meets near

end Hierarchy
end Sightline
