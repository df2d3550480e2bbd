import Sightline.Proofs.Nearest
import Sightline.Shading

/-! Every ray has a color. Where the hierarchy fits the scene and no face names a vertex that is not there, a
search always ends, what it ends with is a triangle of the scene, and the three vertices of that triangle can
be looked up; the lights and the rays that go on from there are searched in the same way, one level further
down. So a color never faults. Nor does it depend on how the picture is cut into tiles. -/
namespace Sightline

namespace Fault

theorem bindAnswers {first : Except Fault α} {next : α → Except Fault β} (answers : ∃ x, first = .ok x)
    (later : ∀ x, first = .ok x → ∃ y, next x = .ok y) : ∃ y, first >>= next = .ok y := by
  obtain ⟨x,rfl⟩ := answers
  exact later x rfl

theorem foldAnswers {f : β → α → Except Fault β} (answers : ∀ b x, ∃ c, f b x = .ok c) (xs : List α)
    (b : β) : ∃ c, xs.foldlM f b = .ok c := by
  induction xs generalizing b with
  | nil => exact ⟨b,rfl⟩
  | cons x rest ih =>
    rw [List.foldlM_cons]
    exact bindAnswers (answers b x) fun c _ => ih c

theorem mapAnswers {f : α → Except Fault β} {xs : List α} (answers : ∀ x ∈ xs, ∃ y, f x = .ok y) :
    ∃ ys, xs.mapM f = .ok ys := by
  induction xs with
  | nil => exact ⟨[],rfl⟩
  | cons x rest ih =>
    obtain ⟨here,later⟩ := List.forall_mem_cons.mp answers
    rw [List.mapM_cons]
    exact bindAnswers here fun y _ => bindAnswers (ih later) fun ys _ => ⟨_,rfl⟩

theorem mapFound {f : α → Except Fault β} {xs : List α} {ys : List β} (mapped : xs.mapM f = .ok ys) :
    List.Forall₂ (fun x y => f x = .ok y) xs ys := by
  induction xs generalizing ys with
  | nil =>
    cases Except.ok.inj mapped
    exact .nil
  | cons x rest ih =>
    rw [List.mapM_cons] at mapped
    obtain ⟨y,here,mapped⟩ := bindOk mapped
    obtain ⟨ys,later,same⟩ := bindOk mapped
    cases Except.ok.inj same
    exact .cons here (ih later)

theorem lookAnswers {xs : Array α} {index : UInt32} (fault : UInt32 → Fault)
    (inside : index.toNat < xs.size) : ∃ x, look xs index fault = .ok x :=
  ⟨_,lookInside fault inside⟩

end Fault

namespace Shading

structure Sound (s : Shading) : Prop where
  fits : s.hierarchy.check s.scene.triangles.size = .ok ()
  faces : ∀ t ∈ s.scene.triangles, t.face.InRange s.scene.vertices.size

def addMirrored (s : Shading) (levels depth : Nat) (q : Query) (spot : Surface) (color : Color) :
    Except Fault Color :=
  if s.settings.reflections then do
    let seen ← s.colorWithin levels (depth + 1)
      ⟨⟨spot.point,reflected q.ray spot.normal⟩,some spot.index,.backfaces⟩
    return color + seen * s.settings.reflectionRate
  else return color

def addRefracted (s : Shading) (levels depth : Nat) (q : Query) (spot : Surface) (color : Color) :
    Except Fault Color :=
  if s.settings.refractions then
    match refracted q.ray spot.normal depth with
    | none => return color
    | some direction => do
      let seen ← s.colorWithin levels (depth + 1) ⟨⟨spot.point,direction⟩,some spot.index,.disabled⟩
      return color + seen * s.settings.refractionRate
  else return color

def colorAt (s : Shading) (levels depth : Nat) (q : Query) (spot : Surface) : Except Fault Color := do
  let color ← s.direct q.culling spot
  let color ← s.addMirrored levels depth q spot color
  s.addRefracted levels depth q spot color

section
variable {s : Shading}

theorem surfaceFrom {hit : Hit} {spot : Surface} (found : s.surfaceOf hit = .ok spot) :
    spot.index = hit.triangle ∧ spot.point = hit.point := by
  unfold surfaceOf at found
  obtain ⟨t,_,found⟩ := Fault.bindOk found
  obtain ⟨normal,_,found⟩ := Fault.bindOk found
  cases Except.ok.inj found
  exact ⟨rfl,rfl⟩

theorem colorMissed {q : Query} (missed : s.hierarchy.closestHit s.scene.triangles q = .ok none)
    (levels depth : Nat) : s.colorWithin (levels + 1) depth q = .ok s.settings.background := by
  rw [colorWithin,missed]
  rfl

theorem colorMet {q : Query} {hit : Hit} {spot : Surface}
    (met : s.hierarchy.closestHit s.scene.triangles q = .ok (some hit))
    (surface : s.surfaceOf hit = .ok spot) (levels depth : Nat) :
    s.colorWithin (levels + 1) depth q = s.colorAt levels depth q spot := by
  obtain ⟨index,point⟩ := surfaceFrom surface
  simp only [colorWithin,met,surface,bind,Except.bind,colorAt,addMirrored,addRefracted,index,point]
  cases s.direct q.culling spot with
  | error fault => rfl
  | ok color =>
    cases s.settings.reflections with
    | false => rfl
    | true => cases s.colorWithin levels (depth + 1) _ <;> rfl

theorem closestInside (sound : s.Sound) (q : Query) :
    ∃ found, s.hierarchy.closestHit s.scene.triangles q = .ok found ∧
      ∀ hit, found = some hit → hit.triangle.toNat < s.scene.triangles.size := by
  obtain ⟨p,found,_,answer,nearest⟩ := Hierarchy.searchNearest sound.fits q
  refine ⟨found,answer,?_⟩
  intro hit same
  subst same
  exact Query.meetsInside (Hierarchy.nearestFound nearest).2.1

theorem normalAnswers (sound : s.Sound) {t : Triangle} (member : t ∈ s.scene.triangles)
    (edges : EdgeDistances) : ∃ normal, s.normalAt t edges = .ok normal := by
  obtain ⟨inA,inB,inC⟩ := sound.faces t member
  unfold normalAt
  split
  · refine Fault.bindAnswers (Fault.lookAnswers _ inA) fun a _ => ?_
    refine Fault.bindAnswers (Fault.lookAnswers _ inB) fun b _ => ?_
    exact Fault.bindAnswers (Fault.lookAnswers _ inC) fun c _ => ⟨_,rfl⟩
  · exact ⟨_,rfl⟩

theorem surfaceAnswers (sound : s.Sound) {hit : Hit} (inside : hit.triangle.toNat < s.scene.triangles.size) :
    ∃ spot, s.surfaceOf hit = .ok spot := by
  refine Fault.bindAnswers (Fault.lookAnswers _ inside) fun t found => ?_
  have member := Array.mem_of_getElem? (Fault.lookFound found)
  exact Fault.bindAnswers (normalAnswers sound member hit.edges) fun normal _ => ⟨_,rfl⟩

theorem hiddenAnswers (sound : s.Sound) (culling : Culling) (spot : Surface) (light : Light) (toLight : Vec3) :
    ∃ blocked, s.hidden culling spot light toLight = .ok blocked := by
  unfold hidden
  split
  · exact Hierarchy.searchAnswers sound.fits _
  · exact ⟨_,rfl⟩

theorem directAnswers (sound : s.Sound) (culling : Culling) (spot : Surface) :
    ∃ color, s.direct culling spot = .ok color := by
  refine Fault.foldAnswers (fun color light => ?_) _ _
  refine Fault.bindAnswers (hiddenAnswers sound culling spot light _) fun blocked _ => ?_
  cases blocked with
  | true => exact ⟨color,rfl⟩
  | false => exact ⟨_,rfl⟩

/- What is added for the two further rays is one level shorter. -/
theorem colorAnswers (sound : s.Sound) (levels depth : Nat) (q : Query) :
    ∃ color, s.colorWithin levels depth q = .ok color := by
  induction levels generalizing depth q with
  | zero => exact ⟨_,rfl⟩
  | succ levels ih =>
    obtain ⟨found,answer,inside⟩ := closestInside sound q
    cases found with
    | none => exact ⟨_,colorMissed answer levels depth⟩
    | some hit =>
      obtain ⟨spot,surface⟩ := surfaceAnswers sound (inside hit rfl)
      rw [colorMet answer surface]
      refine Fault.bindAnswers (directAnswers sound q.culling spot) fun lit _ => ?_
      refine Fault.bindAnswers ?_ fun color _ => ?_
      · unfold addMirrored
        split
        · exact Fault.bindAnswers (ih _ _) fun seen _ => ⟨_,rfl⟩
        · exact ⟨lit,rfl⟩
      · unfold addRefracted
        split
        · split
          · exact ⟨color,rfl⟩
          · exact Fault.bindAnswers (ih _ _) fun seen _ => ⟨_,rfl⟩
        · exact ⟨color,rfl⟩

theorem primaryAnswers (sound : s.Sound) (r : Ray) : ∃ color, s.primary r = .ok color :=
  colorAnswers sound _ _ _

end

def withTileSize (s : Shading) (size : UInt32) : Shading :=
  { s with settings := { s.settings with tileSize := size } }

theorem colorTiled (s : Shading) (size : UInt32) (levels depth : Nat) (q : Query) :
    (s.withTileSize size).colorWithin levels depth q = s.colorWithin levels depth q := by
  induction levels generalizing depth q with
  | zero => rfl
  | succ levels ih =>
    simp only [colorWithin,ih]
    rfl

theorem primaryTiled (s : Shading) (size : UInt32) (r : Ray) :
    (s.withTileSize size).primary r = s.primary r := colorTiled s size _ _ _

theorem tiledSound {s : Shading} (sound : s.Sound) (size : UInt32) : (s.withTileSize size).Sound :=
  ⟨sound.fits,sound.faces⟩

end Shading
end Sightline
