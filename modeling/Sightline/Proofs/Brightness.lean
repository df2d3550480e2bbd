import Sightline.Proofs.Growth
import Sightline.Proofs.Picture

/-! More light never darkens. A color that is lit adds terms to the color that was there, and no term is below zero;
so a term more, for a further light, a further ray or a further level, leaves every channel where it was or moves
it up, and a channel that is no number stays none. Two runs are compared step by step, the second of them with
everything that the first one has: both have a color for every ray, and no channel of the second is below the
same channel of the first. -/
namespace Sightline

namespace Scalar

def Bright (x : Scalar) : Prop := Float32.isNaN x = true ∨ 0 ≤ x

/-- A bright number and one that is not below it; once the first is none, the second is none. -/
structure Brightens (x y : Scalar) : Prop where
  bright : Bright x
  order : Float32.isNaN y = true ∨ x ≤ y

structure Rate (r : Scalar) : Prop where
  least : 0 ≤ r
  finite : Float32.isFinite r = true

section
variable {x x' y y' r : Scalar}

theorem brightSum (hx : Bright x) (hy : Bright y) : Bright (x + y) := by
  rcases hx with nan | hx
  · exact .inl (nanSum (.inl nan))
  · rcases hy with nan | hy
    · exact .inl (nanSum (.inr nan))
    · exact .inr (sumFromZero hx hy)

theorem brightProduct (hx : Bright x) (hy : Bright y) : Bright (x * y) := by
  rcases hx with nan | hx
  · exact .inl (nanProduct (.inl nan))
  · rcases hy with nan | hy
    · exact .inl (nanProduct (.inr nan))
    · exact productFromZero hx hy

theorem brightNotBelow (h : ¬x < 0) : Bright x := by
  cases nan : Float32.isNaN x with
  | true => exact .inl nan
  | false => exact .inr (leOfNotLt zeroNumber nan h)

theorem brightAbove (h : 0 < x) : Bright x :=
  .inr ((leIff zeroNumber (ltNumbers h).2).mpr (Nat.le_of_lt (rankLt h)))

theorem brightPower (h : Bright x) : Bright (power32 x) := by
  have squared {y} (h : Bright y) : Bright (square y) := brightProduct h h
  exact squared (squared (squared (squared (squared h))))

theorem brightNumber (h : Bright x) (number : Float32.isNaN x = false) : 0 ≤ x := by
  rcases h with nan | least
  · rw [number] at nan
    contradiction
  · exact least

theorem Brightens.second (h : Brightens x y) : Bright y := by
  rcases h.order with nan | below
  · exact .inl nan
  · exact .inr (leTrans (brightNumber h.bright (leNumbers below).1) below)

theorem brightensSelf (h : Bright x) : Brightens x x := by
  refine ⟨h,?_⟩
  cases nan : Float32.isNaN x with
  | true => exact .inl rfl
  | false => exact .inr (leSelf nan)

theorem brightensTrans {z : Scalar} (h : Brightens x y) (k : Brightens y z) : Brightens x z := by
  refine ⟨h.bright,?_⟩
  rcases k.order with nan | above
  · exact .inl nan
  · rcases h.order with none | below
    · rw [(leNumbers above).1] at none
      contradiction
    · exact .inr (leTrans below above)

theorem brightensSum (h : Brightens x x') (k : Brightens y y') : Brightens (x + y) (x' + y') := by
  refine ⟨brightSum h.bright k.bright,?_⟩
  rcases h.order with nan | first
  · exact .inl (nanSum (.inl nan))
  rcases k.order with nan | second
  · exact .inl (nanSum (.inr nan))
  · exact .inr (sumMono (brightNumber h.bright (leNumbers first).1) (brightNumber k.bright (leNumbers second).1)
      first second)

theorem brightensMore (h : Brightens x x') (k : Bright y) : Brightens x (x' + y) := by
  refine brightensTrans h ⟨h.second,?_⟩
  rcases h.second with nan | least
  · exact .inl (nanSum (.inl nan))
  rcases k with nan | added
  · exact .inl (nanSum (.inr nan))
  · exact .inr (sumGrows least added)

theorem brightensRate (h : Brightens x x') (rate : Rate r) : Brightens (x * r) (x' * r) := by
  refine ⟨brightProduct h.bright (.inr rate.least),?_⟩
  rcases h.order with nan | below
  · exact .inl (nanProduct (.inl nan))
  · exact productMono (brightNumber h.bright (leNumbers below).1) below rate.least rate.finite

end
end Scalar

namespace Vec3

def Bright (c : Color) : Prop := ∀ a, Scalar.Bright (c.component a)

def Brightens (c d : Color) : Prop := ∀ a, Scalar.Brightens (c.component a) (d.component a)

section
variable {c d e f : Color} {r : Scalar}

theorem brightScaled (h : c.Bright) (rate : Scalar.Bright r) : (c * r).Bright := by
  intro a
  have scaled := Scalar.brightProduct (h a) rate
  rwa [← componentMap (· * r) c a] at scaled

theorem zeroBright : zero.Bright := fun a => by cases a <;> exact .inr (Scalar.leSelf Scalar.zeroNumber)

theorem zeroBrightens (h : c.Bright) : zero.Brightens c := by
  refine fun a => ⟨zeroBright a,?_⟩
  cases a
  · exact h .x
  · exact h .y
  · exact h .z

theorem brightensSelf (h : c.Bright) : c.Brightens c := fun a => Scalar.brightensSelf (h a)

theorem Brightens.second (h : c.Brightens d) : d.Bright := fun a => (h a).second

theorem brightensSum (h : c.Brightens d) (k : e.Brightens f) : (c + e).Brightens (d + f) := by
  intro a
  have sums := Scalar.brightensSum (h a) (k a)
  rwa [← componentZip (· + ·) c e a,← componentZip (· + ·) d f a] at sums

theorem brightensMore (h : c.Brightens d) (k : f.Bright) : c.Brightens (d + f) := by
  intro a
  have more := Scalar.brightensMore (h a) (k a)
  rwa [← componentZip (· + ·) d f a] at more

theorem brightensRate (h : c.Brightens d) (rate : Scalar.Rate r) : (c * r).Brightens (d * r) := by
  intro a
  have scaled := Scalar.brightensRate (h a) rate
  rwa [← componentMap (· * r) c a,← componentMap (· * r) d a] at scaled

end
end Vec3

namespace Fault

theorem foldHolds {P : β → Prop} {f : β → α → Except Fault β} (step : ∀ b x, P b → ∃ c, f b x = .ok c ∧ P c)
    (xs : List α) {b : β} (h : P b) : ∃ c, xs.foldlM f b = .ok c ∧ P c := by
  induction xs generalizing b with
  | nil => exact ⟨b,rfl,h⟩
  | cons x rest ih =>
    obtain ⟨c,here,next⟩ := step b x h
    rw [List.foldlM_cons,here]
    exact ih next

theorem foldRelated {R : β → β → Prop} {f g : β → α → Except Fault β}
    (step : ∀ b c x, R b c → ∃ b' c', f b x = .ok b' ∧ g c x = .ok c' ∧ R b' c') (xs : List α) {b c : β}
    (h : R b c) : ∃ b' c', xs.foldlM f b = .ok b' ∧ xs.foldlM g c = .ok c' ∧ R b' c' := by
  induction xs generalizing b c with
  | nil => exact ⟨b,c,rfl,rfl,h⟩
  | cons x rest ih =>
    obtain ⟨b',c',first,second,next⟩ := step b c x h
    rw [List.foldlM_cons,List.foldlM_cons,first,second]
    exact ih next

end Fault

namespace Shading

structure Lit (s : Shading) : Prop where
  colors : ∀ t ∈ s.scene.triangles, ∀ a, 0 ≤ t.color.component a
  background : ∀ a, 0 ≤ s.settings.background.component a
  ambient : Scalar.Rate s.settings.ambient
  diffuse : Scalar.Rate s.settings.diffuse
  specular : Scalar.Rate s.settings.specular
  reflection : Scalar.Rate s.settings.reflectionRate
  refraction : Scalar.Rate s.settings.refractionRate

/-- The second has all that the first has, and possibly further lights, levels and rays, and no shadows. -/
structure Richer (s t : Shading) : Prop where
  vertices : t.scene.vertices = s.scene.vertices
  triangles : t.scene.triangles = s.scene.triangles
  lights : ∃ more, t.scene.lights.toList = s.scene.lights.toList ++ more
  hierarchy : t.hierarchy = s.hierarchy
  eye : t.eye = s.eye
  settings : t.settings = { s.settings with
    maxDepth := t.settings.maxDepth
    shadows := t.settings.shadows
    reflections := t.settings.reflections
    refractions := t.settings.refractions }
  deeper : s.settings.maxDepth ≤ t.settings.maxDepth
  shadows : t.settings.shadows = true → s.settings.shadows = true
  reflections : s.settings.reflections = true → t.settings.reflections = true
  refractions : s.settings.refractions = true → t.settings.refractions = true

section
variable {s t : Shading} {c d : Color} {spot : Surface} {culling : Culling}

theorem foldSum {terms : List Color} (bright : ∀ term ∈ terms, term.Bright) (h : c.Brightens d) :
    (terms.foldl (· + ·) c).Brightens (terms.foldl (· + ·) d) := by
  induction terms generalizing c d with
  | nil => exact h
  | cons term rest ih =>
    obtain ⟨first,later⟩ := List.forall_mem_cons.mp bright
    exact ih later (Vec3.brightensSum h (Vec3.brightensSelf first))

theorem foldMore {terms : List Color} (bright : ∀ term ∈ terms, term.Bright) (h : c.Brightens d) :
    c.Brightens (terms.foldl (· + ·) d) := by
  induction terms generalizing d with
  | nil => exact h
  | cons term rest ih =>
    obtain ⟨first,later⟩ := List.forall_mem_cons.mp bright
    exact ih later (Vec3.brightensMore h first)

theorem brightenAdds (lit : s.Lit) (bright : spot.triangle.color.Bright) (toLight : Vec3) :
    ∃ terms : List Color, (∀ term ∈ terms, term.Bright) ∧
      ∀ c, brighten s.settings s.eye spot toLight c = terms.foldl (· + ·) c := by
  unfold brighten
  dsimp only
  by_cases behind : spot.normal.dot toLight < 0
  · exact ⟨[],fun _ none => (nomatch none),fun c => if_pos behind⟩
  have shown := Vec3.brightScaled bright
    (Scalar.brightProduct (.inr lit.diffuse.least) (Scalar.brightNotBelow behind))
  generalize (toLight + (s.eye - spot.point).unitOrZero).unitOrZero.dot spot.normal = shine
  by_cases mirrored : shine > 0
  · have highlight : (Vec3.splat (s.settings.specular * Scalar.power32 shine)).Bright := by
      have shining := Scalar.brightProduct (.inr lit.specular.least)
        (Scalar.brightPower (Scalar.brightAbove mirrored))
      intro a
      cases a <;> exact shining
    refine ⟨[_,_],List.forall_mem_cons.mpr ⟨shown,List.forall_mem_singleton.mpr highlight⟩,fun c => ?_⟩
    rw [if_neg behind,if_pos mirrored]
    rfl
  · refine ⟨[_],List.forall_mem_singleton.mpr shown,fun c => ?_⟩
    rw [if_neg behind,if_neg mirrored]
    rfl

theorem richerSound (sound : s.Sound) (richer : s.Richer t) : t.Sound := by
  refine ⟨?_,?_⟩
  · rw [richer.hierarchy,richer.triangles]
    exact sound.fits
  · rw [richer.vertices,richer.triangles]
    exact sound.faces

theorem richerLit (lit : s.Lit) (richer : s.Richer t) : t.Lit := by
  obtain ⟨colors,background,ambient,diffuse,specular,reflection,refraction⟩ := lit
  refine ⟨richer.triangles ▸ colors,?_,?_,?_,?_,?_,?_⟩ <;> rw [richer.settings] <;> assumption

theorem richerSelf (s : Shading) : s.Richer s :=
  ⟨rfl,rfl,⟨[],(List.append_nil _).symm⟩,rfl,rfl,rfl,Nat.le_refl _,id,id,id⟩

theorem brightenSame (richer : s.Richer t) : brighten t.settings t.eye = brighten s.settings s.eye := by
  rw [richer.settings,richer.eye]
  rfl

theorem hiddenLess (sound : s.Sound) (richer : s.Richer t) (spot : Surface) (light : Light) (toLight : Vec3) :
    ∃ hid hid', s.hidden culling spot light toLight = .ok hid ∧ t.hidden culling spot light toLight = .ok hid' ∧
      (hid' = true → hid = true) := by
  obtain ⟨hid,answer⟩ := hiddenAnswers sound culling spot light toLight
  cases shadows : t.settings.shadows with
  | false => exact ⟨hid,false,answer,by rw [hidden,shadows]; rfl,fun none => (nomatch none)⟩
  | true =>
    refine ⟨hid,hid,answer,?_,id⟩
    rw [hidden,shadows,richer.hierarchy,richer.triangles,← answer,hidden,richer.shadows shadows]

theorem lightBrightens (sound : s.Sound) (lit : s.Lit) (richer : s.Richer t) (bright : spot.triangle.color.Bright)
    (light : Light) (h : c.Brightens d) : ∃ c' d', s.addLight culling spot c light = .ok c' ∧
      t.addLight culling spot d light = .ok d' ∧ c'.Brightens d' := by
  obtain ⟨hid,hid',answer,answer',less⟩ :=
    @hiddenLess s t culling sound richer spot light (light.position - spot.point).unitOrZero
  obtain ⟨terms,positive,adds⟩ := brightenAdds lit bright (light.position - spot.point).unitOrZero
  simp only [addLight,answer,answer',bind,Except.bind,brightenSame richer,adds]
  cases hid' with
  | true =>
    rw [less rfl]
    exact ⟨c,d,rfl,rfl,h⟩
  | false =>
    cases hid with
    | true => exact ⟨c,_,rfl,rfl,foldMore positive h⟩
    | false => exact ⟨_,_,rfl,rfl,foldSum positive h⟩

theorem lightMore (sound : s.Sound) (lit : s.Lit) (bright : spot.triangle.color.Bright) (light : Light)
    (h : c.Brightens d) : ∃ d', s.addLight culling spot d light = .ok d' ∧ c.Brightens d' := by
  obtain ⟨hid,answer⟩ := hiddenAnswers sound culling spot light (light.position - spot.point).unitOrZero
  obtain ⟨terms,positive,adds⟩ := brightenAdds lit bright (light.position - spot.point).unitOrZero
  simp only [addLight,answer,bind,Except.bind,adds]
  cases hid with
  | true => exact ⟨d,rfl,h⟩
  | false => exact ⟨_,rfl,foldMore positive h⟩

theorem directBrightens (sound : s.Sound) (lit : s.Lit) (richer : s.Richer t) (culling : Culling)
    (bright : spot.triangle.color.Bright) : ∃ c d, s.direct culling spot = .ok c ∧
      t.direct culling spot = .ok d ∧ c.Brightens d := by
  have dim : t.settings.ambient = s.settings.ambient := by rw [richer.settings]
  have start := Vec3.brightensSelf (Vec3.brightScaled bright (.inr lit.ambient.least))
  obtain ⟨more,lights⟩ := richer.lights
  obtain ⟨c,d,first,second,shared⟩ := Fault.foldRelated
    (fun _ _ light => @lightBrightens s t _ _ spot culling sound lit richer bright light) s.scene.lights.toList start
  obtain ⟨d',further,h⟩ := Fault.foldHolds
    (fun _ light => @lightMore t c _ spot culling (richerSound sound richer) (richerLit lit richer) bright light)
    more shared
  refine ⟨c,d',first,?_,h⟩
  rw [direct,lights,dim,List.foldlM_append,second]
  exact further

def Outshines (s t : Shading) (levels levels' : Nat) : Prop := ∀ depth q, ∃ c d,
  s.colorWithin levels depth q = .ok c ∧ t.colorWithin levels' depth q = .ok d ∧ c.Brightens d

theorem seenBrightens {on on' : Bool} {first second : Except Fault Color} {rate : Scalar}
    (also : on = true → on' = true) (scaled : Scalar.Rate rate)
    (seen : ∃ e f, first = .ok e ∧ second = .ok f ∧ e.Brightens f) (h : c.Brightens d) : ∃ c' d',
      (if on then first >>= fun e => pure (c + e * rate) else pure c) = .ok c' ∧
      (if on' then second >>= fun f => pure (d + f * rate) else pure d) = .ok d' ∧ c'.Brightens d' := by
  obtain ⟨e,f,rfl,rfl,brightens⟩ := seen
  have more := Vec3.brightensRate brightens scaled
  cases on with
  | true =>
    rw [also rfl]
    exact ⟨_,_,rfl,rfl,Vec3.brightensSum h more⟩
  | false =>
    cases on' with
    | true => exact ⟨c,_,rfl,rfl,Vec3.brightensMore h more.second⟩
    | false => exact ⟨c,d,rfl,rfl,h⟩

theorem mirroredBrightens (lit : s.Lit) (richer : s.Richer t) {levels levels' : Nat}
    (deeper : s.Outshines t levels levels') (depth : Nat) (q : Query) (spot : Surface) (h : c.Brightens d) :
    ∃ c' d', s.addMirrored levels depth q spot c = .ok c' ∧ t.addMirrored levels' depth q spot d = .ok d' ∧
      c'.Brightens d' := by
  have rate : t.settings.reflectionRate = s.settings.reflectionRate := by rw [richer.settings]
  unfold addMirrored
  rw [rate]
  exact seenBrightens richer.reflections lit.reflection (deeper _ _) h

theorem refractedBrightens (lit : s.Lit) (richer : s.Richer t) {levels levels' : Nat}
    (deeper : s.Outshines t levels levels') (depth : Nat) (q : Query) (spot : Surface) (h : c.Brightens d) :
    ∃ c' d', s.addRefracted levels depth q spot c = .ok c' ∧ t.addRefracted levels' depth q spot d = .ok d' ∧
      c'.Brightens d' := by
  have rate : t.settings.refractionRate = s.settings.refractionRate := by rw [richer.settings]
  unfold addRefracted
  rw [rate]
  cases refracted q.ray spot.normal depth with
  | none => exact ⟨c,d,by simp [pure,Except.pure],by simp [pure,Except.pure],h⟩
  | some direction => exact seenBrightens richer.refractions lit.refraction (deeper _ _) h

theorem surfaceHeld {hit : Hit} (found : s.surfaceOf hit = .ok spot) : spot.triangle ∈ s.scene.triangles := by
  unfold surfaceOf at found
  obtain ⟨held,there,found⟩ := Fault.bindOk found
  obtain ⟨normal,_,found⟩ := Fault.bindOk found
  cases Except.ok.inj found
  exact Array.mem_of_getElem? (Fault.lookFound there)

theorem surfaceSame (richer : s.Richer t) (hit : Hit) : t.surfaceOf hit = s.surfaceOf hit := by
  have smooth : t.settings.smoothNormals = s.settings.smoothNormals := by rw [richer.settings]
  simp only [surfaceOf,normalAt,smooth,richer.vertices,richer.triangles]

theorem outshinesNext (sound : s.Sound) (lit : s.Lit) (richer : s.Richer t) {levels levels' : Nat}
    (deeper : s.Outshines t levels levels') : s.Outshines t (levels + 1) (levels' + 1) := by
  intro depth q
  obtain ⟨found,answer,inside⟩ := closestInside sound q
  have answer' : t.hierarchy.closestHit t.scene.triangles q = .ok found := by
    rw [richer.hierarchy,richer.triangles,answer]
  cases found with
  | none =>
    have same : t.settings.background = s.settings.background := by rw [richer.settings]
    refine ⟨_,_,colorMissed answer levels depth,colorMissed answer' levels' depth,?_⟩
    rw [same]
    exact Vec3.brightensSelf fun a => .inr (lit.background a)
  | some hit =>
    obtain ⟨spot,surface⟩ := surfaceAnswers sound (inside hit rfl)
    have bright : spot.triangle.color.Bright := fun a => .inr (lit.colors _ (surfaceHeld surface) a)
    rw [colorMet answer surface,colorMet answer' ((surfaceSame richer hit).trans surface)]
    obtain ⟨c,d,first,second,h⟩ := directBrightens sound lit richer q.culling bright
    obtain ⟨c',d',first',second',h'⟩ := mirroredBrightens lit richer deeper depth q spot h
    simp only [colorAt,first,second,first',second',bind,Except.bind]
    exact refractedBrightens lit richer deeper depth q spot h'

/- The runs go down level by level; where the first one has no level left, the second one is compared with itself. -/
theorem outshines (sound : s.Sound) (lit : s.Lit) (richer : s.Richer t) {levels levels' : Nat}
    (fewer : levels ≤ levels') : s.Outshines t levels levels' := by
  induction levels' generalizing s t levels with
  | zero =>
    cases Nat.le_zero.mp fewer
    exact fun _ _ => ⟨_,_,rfl,rfl,Vec3.brightensSelf Vec3.zeroBright⟩
  | succ levels' ih =>
    cases levels with
    | zero =>
      intro depth q
      have soundT := richerSound sound richer
      have litT := richerLit lit richer
      obtain ⟨_,d,_,second,h⟩ :=
        outshinesNext soundT litT (richerSelf t) (ih soundT litT (richerSelf t) (Nat.le_refl levels')) depth q
      exact ⟨_,d,rfl,second,Vec3.zeroBrightens h.second⟩
    | succ levels => exact outshinesNext sound lit richer (ih sound lit richer (Nat.le_of_succ_le_succ fewer))

theorem colorBrightens (sound : s.Sound) (lit : s.Lit) (richer : s.Richer t) (q : Query) (depth : Nat) :
    ∃ c d, s.colorAlong q depth = .ok c ∧ t.colorAlong q depth = .ok d ∧ c.Bright ∧ d.Bright ∧
      ∀ a, Float32.isNaN (d.component a) = true ∨ c.component a ≤ d.component a := by
  obtain ⟨c,d,first,second,h⟩ :=
    outshines sound lit richer (Nat.sub_le_sub_right richer.deeper depth) depth q
  exact ⟨c,d,first,second,fun a => (h a).bright,h.second,fun a => (h a).order⟩

end

def cornerFeast : Shading where
  scene := Image.cornerShading.scene.withLight ⟨⟨1,1,1⟩⟩
  hierarchy := Image.cornerShading.hierarchy
  settings := { Image.cornerShading.settings with maxDepth := 5, shadows := false, refractions := true }
  eye := Image.cornerShading.eye

theorem cornerLit : Image.cornerShading.Lit := by
  refine ⟨?_,?_,⟨?_,?_⟩,⟨?_,?_⟩,⟨?_,?_⟩,⟨?_,?_⟩,⟨?_,?_⟩⟩
  · intro t member
    cases Array.mem_singleton.mp member
    exact fun a => (by decide +kernel : ∀ a ∈ Axis.all, 0 ≤ Vec3.one.component a) a a.memAll
  · exact fun a => (by decide +kernel : ∀ a ∈ Axis.all, 0 ≤ Vec3.zero.component a) a a.memAll
  all_goals decide +kernel

theorem cornerRicher : Image.cornerShading.Richer cornerFeast :=
  ⟨rfl,rfl,⟨[⟨⟨1,1,1⟩⟩],rfl⟩,rfl,rfl,rfl,by decide,fun none => (nomatch none),id,fun _ => rfl⟩

theorem cornerBrightens : Image.cornerShading.Sound ∧ Image.cornerShading.Lit ∧ Image.cornerShading.Richer cornerFeast ∧
    ∃ c d, Image.cornerShading.colorAlong ⟨⟨⟨0,0,2⟩,⟨0,0,-1⟩⟩,none,.backfaces⟩ 0 = .ok c ∧
      cornerFeast.colorAlong ⟨⟨⟨0,0,2⟩,⟨0,0,-1⟩⟩,none,.backfaces⟩ 0 = .ok d ∧ c.Bright ∧ d.Bright ∧
      ∀ a, Float32.isNaN (d.component a) = true ∨ c.component a ≤ d.component a :=
  ⟨Image.cornerSound,cornerLit,cornerRicher,colorBrightens Image.cornerSound cornerLit cornerRicher _ 0⟩

end Shading
end Sightline
