import Sightline.Proofs.Picture

/-! Patches in a picture. A patch that lies in the picture changes the pixels it holds and no other, each to the color
with its number, row by row; it fails only where the list of pixels ends before one of them. What two patches without a
common pixel come to can be told without saying which one was written first, so both orders give the same picture. -/
namespace Sightline

theorem Tile.pixelAt {t : Tile} {i j : UInt32} (inI : i < t.width) :
    t.pixel (j.toNat * t.width.toNat + i.toNat) = (t.x + i,t.y + j) := by
  obtain ⟨column,row⟩ := rowParts (UInt32.lt_iff_toNat_lt.mp inI) j.toNat
  rw [pixel,stepAt,Nat.mul_comm,column,row]
  simp

namespace Image

structure Patched (im : Image) (p : Patch) (out : Image) : Prop where
  wide : out.width = im.width
  high : out.height = im.height
  size : out.pixels.size = im.pixels.size
  shown : ∀ i j : UInt32, i < p.tile.width → j < p.tile.height → ∃ color,
    p.colors[j.toNat * p.tile.width.toNat + i.toNat]? = some color ∧ out.get (p.tile.x + i) (p.tile.y + j) = .ok color
  kept : ∀ x y : UInt32, x < im.width → ¬p.tile.Holds x.toNat y.toNat → out.get x y = im.get x y
  rest : ∀ place, (∀ x y : UInt32, p.tile.Holds x.toNat y.toNat → im.offset x y ≠ place) →
    out.pixels[place]? = im.pixels[place]?

theorem completeIff {w : Written} {out : Image} : w.complete = .ok out ↔ w.fault = none ∧ w.image = out := by
  cases fault : w.fault <;> simp [Written.complete,fault]

structure Overlaid (im : Image) (p q : Patch) (out : Image) : Prop where
  wide : out.width = im.width
  high : out.height = im.height
  first : ∀ i < p.colors.length, out.pixels[im.spot p.tile i]? = p.colors[i]?
  second : ∀ i < q.colors.length, out.pixels[im.spot q.tile i]? = q.colors[i]?
  rest : ∀ place, (∀ i < p.colors.length, im.spot p.tile i ≠ place) →
    (∀ i < q.colors.length, im.spot q.tile i ≠ place) → out.pixels[place]? = im.pixels[place]?

section
variable {im mid out other : Image} {p q : Patch}

theorem Overlaid.swap (laid : im.Overlaid p q out) : im.Overlaid q p out :=
  ⟨laid.wide,laid.high,laid.second,laid.first,fun place apartQ apartP => laid.rest place apartP apartQ⟩

theorem overlaidSame (laid : im.Overlaid p q out) (again : im.Overlaid p q other) : out = other := by
  have pixels : out.pixels = other.pixels := by
    refine Array.ext_getElem? fun place => ?_
    by_cases heldP : ∃ i < p.colors.length, im.spot p.tile i = place
    · obtain ⟨i,below,rfl⟩ := heldP
      exact (laid.first i below).trans (again.first i below).symm
    by_cases heldQ : ∃ i < q.colors.length, im.spot q.tile i = place
    · obtain ⟨i,below,rfl⟩ := heldQ
      exact (laid.second i below).trans (again.second i below).symm
    have apartP : ∀ i < p.colors.length, im.spot p.tile i ≠ place := fun i below same => heldP ⟨i,below,same⟩
    have apartQ : ∀ i < q.colors.length, im.spot q.tile i ≠ place := fun i below same => heldQ ⟨i,below,same⟩
    exact (laid.rest place apartP apartQ).trans (again.rest place apartP apartQ).symm
  obtain ⟨wide,high⟩ := And.intro (laid.wide.trans again.wide.symm) (laid.high.trans again.high.symm)
  cases out
  cases other
  simp_all

theorem fitsOn (fits : p.Fits im) (wide : mid.width = im.width) (high : mid.height = im.height) : p.Fits mid :=
  ⟨by rw [wide,high]; exact fits.inside,fits.short,fits.full⟩

theorem spotOn (wide : mid.width = im.width) (t : Tile) (i : Nat) : mid.spot t i = im.spot t i := by
  rw [spot,spot,offset,offset,wide]

theorem spotsApart (fitsP : p.Fits im) (fitsQ : q.Fits im) (apart : ∀ x y, p.tile.Holds x y → ¬q.tile.Holds x y)
    {i j : Nat} (belowI : i < p.colors.length) (belowJ : j < q.colors.length) :
    im.spot p.tile i ≠ im.spot q.tile j := by
  intro same
  have holdsP := patchHolds fitsP belowI
  have holdsQ := patchHolds fitsQ belowJ
  obtain ⟨column,row⟩ := Prod.mk.inj (offsetSame (Tile.holdsInside fitsP.inside holdsP).1
    (Tile.holdsInside fitsQ.inside holdsQ).1 same)
  rw [column,row] at holdsP
  exact apart _ _ holdsP holdsQ

theorem pasteTwo : paste im [p,q] = .ok out ↔ ∃ mid, (im.writeTile p.tile p.colors).complete = .ok mid ∧
    (mid.writeTile q.tile q.colors).complete = .ok out := by
  cases first : (im.writeTile p.tile p.colors).complete with
  | error fault => simp [paste,first,bind,Except.bind]
  | ok mid =>
    cases second : (mid.writeTile q.tile q.colors).complete <;>
      simp [paste,first,second,bind,Except.bind,pure,Except.pure]

theorem pasteReached (fitsP : p.Fits im) (fitsQ : q.Fits im) : (∃ out, paste im [p,q] = .ok out) ↔
    (∀ i < p.colors.length, im.spot p.tile i < im.pixels.size) ∧
      ∀ i < q.colors.length, im.spot q.tile i < im.pixels.size := by
  have fillsP := patchFills fitsP
  have fillsQ := patchFills (fitsOn fitsQ fillsP.wide fillsP.high)
  have reachedP := fillsP.reached
  have reachedQ := fillsQ.reached
  simp only [Nat.zero_add,spotOn fillsP.wide,fillsP.size] at reachedP reachedQ
  simp only [pasteTwo,completeIff,← reachedP,← reachedQ]
  constructor
  · rintro ⟨out,mid,⟨doneP,rfl⟩,doneQ,_⟩
    exact ⟨doneP,doneQ⟩
  · rintro ⟨doneP,doneQ⟩
    exact ⟨_,_,⟨doneP,rfl⟩,doneQ,rfl⟩

theorem pasteOverlaid (fitsP : p.Fits im) (fitsQ : q.Fits im) (apart : ∀ x y, p.tile.Holds x y → ¬q.tile.Holds x y)
    (pasted : paste im [p,q] = .ok out) : im.Overlaid p q out := by
  obtain ⟨mid,first,second⟩ := pasteTwo.mp pasted
  obtain ⟨doneP,rfl⟩ := completeIff.mp first
  obtain ⟨doneQ,rfl⟩ := completeIff.mp second
  have fillsP := patchFills fitsP
  have fillsQ := patchFills (fitsOn fitsQ fillsP.wide fillsP.high)
  have shownP := fillsP.shown doneP
  have keptP := fillsP.kept
  have shownQ := fillsQ.shown doneQ
  have keptQ := fillsQ.kept
  simp only [Nat.zero_add,spotOn fillsP.wide] at shownP keptP shownQ keptQ
  refine ⟨fillsQ.wide.trans fillsP.wide,fillsQ.high.trans fillsP.high,fun i below => ?_,shownQ,
    fun place apartP apartQ => (keptQ place apartQ).trans (keptP place apartP)⟩
  have other : ∀ j < q.colors.length, im.spot q.tile j ≠ im.spot p.tile i := fun j belowJ =>
    (spotsApart fitsP fitsQ apart below belowJ).symm
  exact (keptQ _ other).trans (shownP i below)

theorem pasteSwap (fitsP : p.Fits im) (fitsQ : q.Fits im) (apart : ∀ x y, p.tile.Holds x y → ¬q.tile.Holds x y)
    (pasted : paste im [p,q] = .ok out) : paste im [q,p] = .ok out := by
  have reached := (pasteReached fitsP fitsQ).mp ⟨out,pasted⟩
  obtain ⟨other,swapped⟩ := (pasteReached fitsQ fitsP).mpr reached.symm
  -- neither picture says which patch came first
  have laid := pasteOverlaid fitsP fitsQ apart pasted
  have again := pasteOverlaid fitsQ fitsP (fun x y holdsQ holdsP => apart x y holdsP holdsQ) swapped
  rw [swapped,overlaidSame laid again.swap]

theorem patchPatched (fits : p.Fits im) (done : (im.writeTile p.tile p.colors).fault = none) :
    im.Patched p (im.writeTile p.tile p.colors).image := by
  have fills := patchFills fits
  refine ⟨fills.wide,fills.high,fills.size,fun i j inI inJ => ?_,fun x y inX outside => patchKept fits inX outside,
    fun place apart => fills.kept place fun k below => ?_⟩
  · have below : j.toNat * p.tile.width.toNat + i.toNat < p.colors.length := by
      have column : i.toNat < p.tile.width.toNat := inI
      have row : j.toNat + 1 ≤ p.tile.height.toNat := inJ
      have whole := Nat.mul_le_mul_right p.tile.width.toNat row
      rw [Nat.succ_mul] at whole
      rw [fits.full]
      omega
    have there := List.getElem?_eq_getElem below
    have shown := patchShown fits done there
    rw [Tile.pixelAt inI] at shown
    exact ⟨_,there,shown⟩
  · rw [Nat.zero_add]
    exact apart _ _ (patchHolds fits below)

theorem patchReached (fits : p.Fits im) : (im.writeTile p.tile p.colors).fault = none ↔
    ∀ x y : UInt32, p.tile.Holds x.toNat y.toNat → im.offset x y < im.pixels.size := by
  have reached := (patchFills fits).reached
  simp only [Nat.zero_add] at reached
  rw [reached]
  constructor
  · intro inside x y holds
    obtain ⟨i,below,same⟩ := patchHeld fits holds
    have there := inside i below
    rwa [spot,same] at there
  · exact fun inside i below => inside _ _ (patchHolds fits below)

theorem patchExact (fits : p.Fits im) :
    (∀ out, (im.writeTile p.tile p.colors).complete = .ok out → im.Patched p out) ∧
    ((∃ out, (im.writeTile p.tile p.colors).complete = .ok out) ↔
      ∀ x y : UInt32, p.tile.Holds x.toNat y.toNat → im.offset x y < im.pixels.size) ∧
    (im.width.toNat * im.height.toNat ≤ im.pixels.size →
      ∃ out, (im.writeTile p.tile p.colors).complete = .ok out) ∧
    ∀ q : Patch, q.Fits im → (∀ x y, p.tile.Holds x y → ¬q.tile.Holds x y) →
      (∀ out, paste im [p,q] = .ok out ↔ paste im [q,p] = .ok out) ∧
      (im.width.toNat * im.height.toNat ≤ im.pixels.size → ∃ out, paste im [p,q] = .ok out) := by
  have answers : (∃ out, (im.writeTile p.tile p.colors).complete = .ok out) ↔
      (im.writeTile p.tile p.colors).fault = none := by simp [completeIff]
  refine ⟨fun out completed => ?_,answers.trans (patchReached fits),fun whole => answers.mpr (patchWhole fits whole),
    fun q fitsQ apart => ⟨fun out => ⟨pasteSwap fits fitsQ apart,?_⟩,fun whole => ?_⟩⟩
  · obtain ⟨done,rfl⟩ := completeIff.mp completed
    exact patchPatched fits done
  · exact pasteSwap fitsQ fits fun x y holdsQ holdsP => apart x y holdsP holdsQ
  · have reachedP := (patchFills fits).reached.mp (patchWhole fits whole)
    have reachedQ := (patchFills fitsQ).reached.mp (patchWhole fitsQ whole)
    simp only [Nat.zero_add] at reachedP reachedQ
    exact (pasteReached fits fitsQ).mpr ⟨reachedP,reachedQ⟩

end

def edgePatch : Patch := ⟨⟨2,1,2,2,0⟩,[⟨1,0,0⟩,⟨0,1,0⟩,⟨0,0,1⟩,⟨1,1,1⟩]⟩
def sidePatch : Patch := ⟨⟨0,0,2,3,1⟩,List.replicate 6 ⟨0.5,0.5,0.5⟩⟩

theorem edgeExact : edgePatch.Fits (blank 4 3) ∧
    (∃ out, ((blank 4 3).writeTile edgePatch.tile edgePatch.colors).complete = .ok out ∧
      out.get 3 1 = .ok ⟨0,1,0⟩ ∧ out.get 2 2 = .ok ⟨0,0,1⟩ ∧ out.get 0 2 = .ok .zero) ∧
    ∃ both, paste (blank 4 3) [edgePatch,sidePatch] = .ok both ∧ paste (blank 4 3) [sidePatch,edgePatch] = .ok both := by
  have fitsEdge : edgePatch.Fits (blank 4 3) := ⟨⟨by decide,by decide⟩,by decide,rfl⟩
  have fitsSide : sidePatch.Fits (blank 4 3) := ⟨⟨by decide,by decide⟩,by decide,rfl⟩
  have whole : (blank 4 3).width.toNat * (blank 4 3).height.toNat ≤ (blank 4 3).pixels.size := by decide
  obtain ⟨patched,_,answers,others⟩ := patchExact fitsEdge
  obtain ⟨out,completed⟩ := answers whole
  have shown := patched out completed
  obtain ⟨swaps,both⟩ := others sidePatch fitsSide fun x y left right => by
    have := left.left
    have := right.right
    simp [edgePatch,sidePatch] at *
    omega
  obtain ⟨both,pasted⟩ := both whole
  obtain ⟨_,green,second⟩ := shown.shown 1 0 (by decide) (by decide)
  obtain ⟨_,blue,third⟩ := shown.shown 0 1 (by decide) (by decide)
  cases green
  cases blue
  refine ⟨fitsEdge,⟨out,completed,second,third,?_⟩,both,pasted,(swaps both).mp pasted⟩
  exact shown.kept 0 2 (by decide) fun holds => by simpa [edgePatch] using holds.left

end Image
end Sightline
