import Sightline.Proofs.Colors
import Sightline.Proofs.Mosaic

/-! What a finished picture shows. A tile that is written changes the pixels it holds and no other, each to the
color with its number, and tiles that show the same thing can be written in any order, over one another too.
As the tiles of a grid hold every pixel, the picture shows in each of them what is seen along the ray through
it, and nothing is left of how the picture was cut. -/
namespace Sightline

namespace Image

structure Spans (im : Image) (width height : UInt32) : Prop where
  wide : im.width = width
  high : im.height = height
  whole : im.pixels.size = width.toNat * height.toNat

theorem blankSpans (width height : UInt32) : (blank width height).Spans width height :=
  ⟨rfl,rfl,Array.size_replicate⟩

section
variable {im : Image} {width height x y : UInt32}

theorem offsetInside (inX : x.toNat < im.width.toNat) (inY : y.toNat < im.height.toNat) :
    im.offset x y < im.width.toNat * im.height.toNat := by
  calc y.toNat * im.width.toNat + x.toNat < (y.toNat + 1) * im.width.toNat := by rw [Nat.succ_mul]; omega
    _ ≤ im.height.toNat * im.width.toNat := Nat.mul_le_mul_right _ inY
    _ = im.width.toNat * im.height.toNat := Nat.mul_comm _ _

theorem getFound {color : Color} (found : im.pixels[im.offset x y]? = some color) : im.get x y = .ok color := by
  obtain ⟨inside,same⟩ := Array.getElem?_eq_some_iff.mp found
  rw [get,locate,if_pos inside]
  simp [bind,Except.bind,pure,Except.pure,inside,same]

theorem getNone (none : im.pixels[im.offset x y]? = none) : im.get x y = .error (.noPixel x y) := by
  have outside : ¬im.offset x y < im.pixels.size := Nat.not_lt.mpr (Array.getElem?_eq_none_iff.mp none)
  rw [get,locate,if_neg outside]
  rfl

theorem getSame {other : Image} (wide : other.width = im.width)
    (same : other.pixels[im.offset x y]? = im.pixels[im.offset x y]?) : other.get x y = im.get x y := by
  have place : other.offset x y = im.offset x y := by rw [offset,offset,wide]
  rw [← place] at same
  cases found : other.pixels[other.offset x y]? with
  | none => rw [getNone found,getNone (by rw [← place,← same,found])]
  | some color => rw [getFound found,getFound (by rw [← place,← same,found])]

theorem offsetSame {p q : UInt32} (inX : x.toNat < im.width.toNat) (inP : p.toNat < im.width.toNat)
    (same : im.offset x y = im.offset p q) : (x,y) = (p,q) := by
  simp only [offset,Nat.mul_comm _ im.width.toNat] at same
  obtain ⟨column,row⟩ := Tile.rowParts inX y.toNat
  obtain ⟨columnP,rowP⟩ := Tile.rowParts inP q.toNat
  rw [same] at column row
  rw [UInt32.toNat_inj.mp (column.symm.trans columnP),UInt32.toNat_inj.mp (row.symm.trans rowP)]

theorem offsetOnto (spans : im.Spans width height) {k : Nat} (inside : k < im.pixels.size) :
    ∃ x y : UInt32, x.toNat < width.toNat ∧ y.toNat < height.toNat ∧ im.offset x y = k := by
  rw [spans.whole,Nat.mul_comm] at inside
  have wide : 0 < width.toNat := Nat.pos_of_mul_pos_left (Nat.zero_lt_of_lt inside)
  have short := Nat.mod_lt k wide
  have low := (Nat.div_lt_iff_lt_mul wide).mpr inside
  obtain ⟨x,across⟩ : ∃ x : UInt32, x.toNat = k % width.toNat :=
    ⟨_,UInt32.toNat_ofNat_of_lt' (Nat.lt_trans short width.toNat_lt)⟩
  obtain ⟨y,down⟩ : ∃ y : UInt32, y.toNat = k / width.toNat :=
    ⟨_,UInt32.toNat_ofNat_of_lt' (Nat.lt_trans low height.toNat_lt)⟩
  refine ⟨x,y,by rwa [across],by rwa [down],?_⟩
  rw [offset,spans.wide,across,down,Nat.mul_comm]
  exact Nat.div_add_mod k _

theorem spansSame {other : Image} (spans : im.Spans width height) (spansOther : other.Spans width height)
    (same : ∀ x y : UInt32, x.toNat < width.toNat → y.toNat < height.toNat → im.get x y = other.get x y) :
    im = other := by
  have pixels : im.pixels = other.pixels := by
    refine Array.ext (spans.whole.trans spansOther.whole.symm) fun k inside insideOther => ?_
    obtain ⟨x,y,inX,inY,place⟩ := offsetOnto spans inside
    have placeOther : other.offset x y = k := by rw [← place,offset,offset,spans.wide,spansOther.wide]
    have here := same x y inX inY
    rw [getFound (by rw [place]; exact Array.getElem?_eq_getElem inside),
      getFound (by rw [placeOther]; exact Array.getElem?_eq_getElem insideOther)] at here
    exact Except.ok.inj here
  cases im
  cases other
  cases spans.wide.trans spansOther.wide.symm
  cases spans.high.trans spansOther.high.symm
  exact congrArg _ pixels

end

section
variable {im : Image} {width height : UInt32} {t : Tile}

theorem locateNumbered (fits : t.Inside width.toNat height.toNat) {i : Nat}
    (inside : i < t.height.toNat * t.width.toNat) (short : t.height.toNat * t.width.toNat < 4294967296)
    (im : Image) : im.locateInTile t i = im.locate (t.pixel i).1 (t.pixel i).2 := by
  have number : i.toUInt32.toNat = i := UInt32.toNat_ofNat_of_lt' (Nat.lt_trans inside short)
  have across : i.toUInt32 % t.width = (t.stepAt i).1 := by
    rw [← UInt32.toNat_inj,UInt32.toNat_mod,number,Tile.stepAcross inside]
  have down : i.toUInt32 / t.width = (t.stepAt i).2 := by
    rw [← UInt32.toNat_inj,UInt32.toNat_div,number,Tile.stepDown inside]
  have wide : t.width ≠ 0 := by
    intro none
    rw [none,UInt32.toNat_zero,Nat.mul_zero] at inside
    exact Nat.not_lt_zero i inside
  simp only [locateInTile,if_neg wide,across,down,Tile.addAcross fits inside,Tile.addDown fits inside]
  rfl

def spot (im : Image) (t : Tile) (i : Nat) : Nat := im.offset (t.pixel i).1 (t.pixel i).2

structure Fills (im : Image) (t : Tile) (position : Nat) (colors : List Color) (out : Written) : Prop where
  wide : out.image.width = im.width
  high : out.image.height = im.height
  size : out.image.pixels.size = im.pixels.size
  reached : out.fault = none ↔ ∀ k < colors.length, im.spot t (position + k) < im.pixels.size
  shown : out.fault = none → ∀ k < colors.length, out.image.pixels[im.spot t (position + k)]? = colors[k]?
  kept : ∀ place, (∀ k < colors.length, im.spot t (position + k) ≠ place) →
    out.image.pixels[place]? = im.pixels[place]?

theorem spotSame (fits : t.Inside im.width.toNat im.height.toNat) {i j : Nat}
    (insideI : i < t.height.toNat * t.width.toNat) (insideJ : j < t.height.toNat * t.width.toNat)
    (same : im.spot t i = im.spot t j) : i = j := by
  have acrossI := (Tile.holdsInside fits (Tile.pixelHolds fits insideI)).1
  have acrossJ := (Tile.holdsInside fits (Tile.pixelHolds fits insideJ)).1
  exact Tile.pixelSame fits insideI insideJ (offsetSame acrossI acrossJ same)

theorem fillsStuck {position : Nat} {color : Color} {rest : List Color} (fault : Fault)
    (outside : ¬im.spot t position < im.pixels.size) : im.Fills t position (color :: rest) ⟨im,some fault⟩ :=
  ⟨rfl,rfl,rfl,⟨nofun,fun all => (outside (all 0 (Nat.succ_pos _))).elim⟩,nofun,fun _ _ => rfl⟩

/- What is left to write goes to other places, so a pixel that has been written keeps its color. -/
theorem fillsNext {position : Nat} {color : Color} {rest : List Color} {out : Written}
    (inside : im.spot t position < im.pixels.size)
    (apart : ∀ k < rest.length, im.spot t (position + 1 + k) ≠ im.spot t position)
    (next : (im.put (im.spot t position) color).Fills t (position + 1) rest out) :
    im.Fills t position (color :: rest) out := by
  have size := next.size.trans (putSize im _ color)
  refine ⟨next.wide,next.high,size,⟨fun done k below => ?_,fun all => next.reached.mpr fun k below => ?_⟩,
    fun done k below => ?_,fun place other => ?_⟩
  · cases k with
    | zero => exact inside
    | succ k =>
      have later := next.reached.mp done k (Nat.lt_of_succ_lt_succ below)
      rwa [putSize,Nat.add_right_comm] at later
  · have later := all (k + 1) (Nat.succ_lt_succ below)
    rw [putSize,Nat.add_right_comm]
    exact later
  · cases k with
    | zero => simp [next.kept _ apart,put,inside]
    | succ k =>
      have later := next.shown done k (Nat.lt_of_succ_lt_succ below)
      rwa [Nat.add_right_comm] at later
  · have later : ∀ k < rest.length, im.spot t (position + 1 + k) ≠ place := by
      intro k below
      rw [Nat.add_right_comm]
      exact other (k + 1) (Nat.succ_lt_succ below)
    have here : im.spot t position ≠ place := other 0 (Nat.succ_pos _)
    exact (next.kept place later).trans (Array.getElem?_setIfInBounds_ne here)

theorem writeFills (fits : t.Inside im.width.toNat im.height.toNat)
    (short : t.height.toNat * t.width.toNat < 4294967296) {colors : List Color} {position : Nat}
    (room : position + colors.length ≤ t.height.toNat * t.width.toNat) :
    im.Fills t position colors (writeFrom t im position colors) := by
  induction colors generalizing im position with
  | nil => exact ⟨rfl,rfl,rfl,by simp [writeFrom],by simp,by simp [writeFrom]⟩
  | cons color rest ih =>
    rw [List.length_cons] at room
    have here : position < t.height.toNat * t.width.toNat := by omega
    by_cases inside : im.spot t position < im.pixels.size
    · have apart : ∀ k < rest.length, im.spot t (position + 1 + k) ≠ im.spot t position := by
        intro k below same
        have := spotSame fits (by omega) here same
        omega
      rw [writeFrom,(locateNumbered fits here short im).trans (if_pos inside)]
      exact fillsNext inside apart (@ih (im.put (im.spot t position) color) fits (position + 1) (by omega))
    · rw [writeFrom,(locateNumbered fits here short im).trans (if_neg inside)]
      exact fillsStuck _ inside

end

structure Patch where
  tile : Tile
  colors : List Color

def paste (im : Image) (patches : List Patch) : Except Fault Image :=
  patches.foldlM (fun im p => (im.writeTile p.tile p.colors).complete) im

structure Patch.Fits (p : Patch) (im : Image) : Prop where
  inside : p.tile.Inside im.width.toNat im.height.toNat
  short : p.tile.height.toNat * p.tile.width.toNat < 4294967296
  full : p.colors.length = p.tile.height.toNat * p.tile.width.toNat

section
variable {im : Image} {p : Patch} {x y : UInt32}

theorem patchFills (fits : p.Fits im) : im.Fills p.tile 0 p.colors (im.writeTile p.tile p.colors) :=
  writeFills fits.inside fits.short (by rw [Nat.zero_add,fits.full])

theorem patchHolds (fits : p.Fits im) {i : Nat} (below : i < p.colors.length) :
    p.tile.Holds (p.tile.pixel i).1.toNat (p.tile.pixel i).2.toNat :=
  Tile.pixelHolds fits.inside (fits.full ▸ below)

theorem patchHeld (fits : p.Fits im) (holds : p.tile.Holds x.toNat y.toNat) :
    ∃ i < p.colors.length, p.tile.pixel i = (x,y) := by
  obtain ⟨i,below,same⟩ := Tile.pixelHeld fits.inside holds
  exact ⟨i,fits.full ▸ below,same⟩

theorem patchWhole (fits : p.Fits im) (whole : im.width.toNat * im.height.toNat ≤ im.pixels.size) :
    (im.writeTile p.tile p.colors).fault = none := by
  refine (patchFills fits).reached.mpr fun k below => ?_
  rw [Nat.zero_add]
  obtain ⟨inX,inY⟩ := Tile.holdsInside fits.inside (patchHolds fits below)
  exact Nat.lt_of_lt_of_le (offsetInside inX inY) whole

theorem patchShown (fits : p.Fits im) (done : (im.writeTile p.tile p.colors).fault = none) {i : Nat} {color : Color}
    (there : p.colors[i]? = some color) :
    (im.writeTile p.tile p.colors).image.get (p.tile.pixel i).1 (p.tile.pixel i).2 = .ok color := by
  have fills := patchFills fits
  obtain ⟨below,_⟩ := List.getElem?_eq_some_iff.mp there
  have shown := fills.shown done i below
  rw [Nat.zero_add,there] at shown
  refine getFound ?_
  rw [offset,fills.wide]
  exact shown

theorem patchKept (fits : p.Fits im) (inX : x.toNat < im.width.toNat) (outside : ¬p.tile.Holds x.toNat y.toNat) :
    (im.writeTile p.tile p.colors).image.get x y = im.get x y := by
  have fills := patchFills fits
  refine getSame fills.wide (fills.kept _ fun k below same => outside ?_)
  rw [Nat.zero_add] at same
  have holds := patchHolds fits below
  have pixel := offsetSame (Tile.holdsInside fits.inside holds).1 inX same
  obtain ⟨rfl,rfl⟩ := Prod.mk.inj pixel
  exact holds

end

structure Patch.Shows (p : Patch) (width height : UInt32) (seen : UInt32 → UInt32 → Except Fault Color) :
    Prop where
  inside : p.tile.Inside width.toNat height.toNat
  short : p.tile.height.toNat * p.tile.width.toNat < 4294967296
  full : p.colors.length = p.tile.height.toNat * p.tile.width.toNat
  seen : ∀ i color, p.colors[i]? = some color → seen (p.tile.pixel i).1 (p.tile.pixel i).2 = .ok color

section
variable {im : Image} {width height : UInt32} {seen : UInt32 → UInt32 → Except Fault Color}

theorem patchPasted {p : Patch} (shows : p.Shows width height seen) (spans : im.Spans width height) :
    ∃ out, (im.writeTile p.tile p.colors).complete = .ok out ∧ out.Spans width height ∧
      ∀ x y : UInt32, x.toNat < width.toNat → y.toNat < height.toNat →
        (p.tile.Holds x.toNat y.toNat → out.get x y = seen x y) ∧
        (¬p.tile.Holds x.toNat y.toNat → out.get x y = im.get x y) := by
  obtain ⟨rfl,rfl,whole⟩ := spans
  have fits : p.Fits im := ⟨shows.inside,shows.short,shows.full⟩
  have fills := patchFills fits
  have done := patchWhole fits (Nat.le_of_eq whole.symm)
  refine ⟨(im.writeTile p.tile p.colors).image,by rw [Written.complete,done],
    ⟨fills.wide,fills.high,fills.size.trans whole⟩,fun x y inX inY => ⟨fun holds => ?_,patchKept fits inX⟩⟩
  obtain ⟨i,below,same⟩ := patchHeld fits holds
  have there := List.getElem?_eq_getElem below
  have color := (patchShown fits done there).trans (shows.seen i _ there).symm
  rwa [same] at color

theorem pastePatches {patches : List Patch} (shows : ∀ p ∈ patches, p.Shows width height seen)
    (spans : im.Spans width height) :
    ∃ out, paste im patches = .ok out ∧ out.Spans width height ∧
      ∀ x y : UInt32, x.toNat < width.toNat → y.toNat < height.toNat →
        ((∃ p ∈ patches, p.tile.Holds x.toNat y.toNat) ∨ im.get x y = seen x y) → out.get x y = seen x y := by
  induction patches generalizing im with
  | nil => exact ⟨im,rfl,spans,fun x y _ _ either => either.elim (fun ⟨_,member,_⟩ => nomatch member) id⟩
  | cons p rest ih =>
    obtain ⟨here,later⟩ := List.forall_mem_cons.mp shows
    obtain ⟨mid,pasted,spansMid,shown⟩ := patchPasted here spans
    obtain ⟨out,finished,spansOut,shownLater⟩ := ih later spansMid
    refine ⟨out,?_,spansOut,fun x y inX inY either => shownLater x y inX inY ?_⟩
    · rw [paste,List.foldlM_cons,pasted]
      exact finished
    · obtain ⟨held,kept⟩ := shown x y inX inY
      by_cases holds : p.tile.Holds x.toNat y.toNat
      · exact .inr (held holds)
      · rcases either with ⟨other,member,holdsOther⟩ | same
        · rcases List.mem_cons.mp member with rfl | member
          · exact (holds holdsOther).elim
          · exact .inl ⟨other,member,holdsOther⟩
        · exact .inr ((kept holds).trans same)

/- Pixels in two patches are no matter: both show the same color there. -/
theorem pasteCovering {patches : List Patch} (shows : ∀ p ∈ patches, p.Shows width height seen)
    (covers : ∀ x y, x < width.toNat → y < height.toNat → ∃ p ∈ patches, p.tile.Holds x y) :
    ∃ out, paste (blank width height) patches = .ok out ∧ out.Spans width height ∧
      ∀ x y : UInt32, x.toNat < width.toNat → y.toNat < height.toNat → out.get x y = seen x y := by
  obtain ⟨out,pasted,spans,shown⟩ := pastePatches shows (blankSpans width height)
  exact ⟨out,pasted,spans,fun x y inX inY => shown x y inX inY (.inl (covers _ _ inX inY))⟩

end

def Patch.Traced (camera : Camera) (s : Shading) (p : Patch) : Prop :=
  p.tile.render camera s = .ok p.colors

section
variable {s : Shading} {camera : Camera} {t : Tile}

theorem renderNumbered {i : Nat} (fits : t.Inside camera.width.toNat camera.height.toNat)
    (inside : i < t.height.toNat * t.width.toNat) : t.renderPixel camera s (t.stepAt i) =
      s.primary (camera.rayAt (t.pixel i).1 (t.pixel i).2) := by
  rw [Tile.renderPixel,Tile.addAcross fits inside,Tile.addDown fits inside]
  rfl

theorem renderAnswers (sound : s.Sound) (fits : t.Inside camera.width.toNat camera.height.toNat)
    (counted : ∃ n, t.pixelCount = .ok n) : ∃ colors, t.render camera s = .ok colors := by
  refine Fault.bindAnswers counted fun n _ => Fault.mapAnswers fun step member => ?_
  rw [Tile.stepsNumbered] at member
  obtain ⟨i,inside,rfl⟩ := List.mem_map.mp member
  rw [renderNumbered fits (List.mem_range.mp inside)]
  exact s.primaryAnswers sound _

theorem tracedShows {p : Patch} (traced : p.Traced camera s)
    (fits : p.tile.Inside camera.width.toNat camera.height.toNat) :
    p.Shows camera.width camera.height fun x y => s.primary (camera.rayAt x y) := by
  obtain ⟨n,counted,mapped⟩ := Fault.bindOk traced
  have found := Fault.mapFound mapped
  rw [Tile.stepsNumbered,List.forall₂_map_left_iff] at found
  have full := found.length_eq.symm.trans List.length_range
  refine ⟨fits,?_,full,?_⟩
  · rw [Nat.mul_comm,← Fault.mulWordsOk counted]
    exact n.toNat_lt
  · intro i color there
    obtain ⟨below,same⟩ := List.getElem?_eq_some_iff.mp there
    have here := found.get (by rw [List.length_range,← full]; exact below) below
    simp only [List.get_eq_getElem,List.getElem_range,same] at here
    rwa [renderNumbered fits (full ▸ below)] at here

theorem tracePatches {tiles : List Tile} (answers : ∀ t ∈ tiles, ∃ colors, t.render camera s = .ok colors) :
    ∃ patches : List Patch, patches.map Patch.tile = tiles ∧ ∀ p ∈ patches, p.Traced camera s := by
  induction tiles with
  | nil => exact ⟨[],rfl,fun p member => nomatch member⟩
  | cons t rest ih =>
    obtain ⟨⟨colors,here⟩,later⟩ := List.forall_mem_cons.mp answers
    obtain ⟨patches,same,traced⟩ := ih later
    exact ⟨⟨t,colors⟩ :: patches,congrArg (t :: ·) same,List.forall_mem_cons.mpr ⟨here,traced⟩⟩

theorem renderPasted {patches : List Patch} (traced : ∀ p ∈ patches, p.Traced camera s) (im : Image) :
    (patches.map Patch.tile).foldlM (addTile camera s) im = paste im patches := by
  induction patches generalizing im with
  | nil => rfl
  | cons p rest ih =>
    obtain ⟨here,later⟩ := List.forall_mem_cons.mp traced
    rw [List.map_cons,List.foldlM_cons,addTile,here,paste,List.foldlM_cons]
    exact bind_congr (ih later)

end

section
variable {s : Shading} {camera : Camera} {size : UInt32} {tiles : List Tile}

theorem pasteTraced (cut : Tile.grid camera.width camera.height size = .ok tiles) {patches : List Patch}
    (same : (patches.map Patch.tile).Perm tiles) (traced : ∀ p ∈ patches, p.Traced camera s) :
    ∃ out, paste (blank camera.width camera.height) patches = .ok out ∧ out.Spans camera.width camera.height ∧
      ∀ x y : UInt32, x.toNat < camera.width.toNat → y.toNat < camera.height.toNat →
        out.get x y = s.primary (camera.rayAt x y) := by
  refine pasteCovering (fun p member => ?_) fun x y inX inY => ?_
  · exact tracedShows (traced p member) (Tile.gridInside cut _ (same.mem_iff.mp (List.mem_map_of_mem member)))
  · obtain ⟨t,member,holds⟩ := Tile.gridCovers cut inX inY
    obtain ⟨p,found,rfl⟩ := List.mem_map.mp (same.mem_iff.mpr member)
    exact ⟨p,found,holds⟩

theorem renderShown (sound : s.Sound)
    (cut : Tile.grid camera.width camera.height s.settings.tileSize = .ok tiles)
    (counted : ∀ t ∈ tiles, ∃ n, t.pixelCount = .ok n) :
    ∃ out, render camera s = .ok out ∧ out.Spans camera.width camera.height ∧
      ∀ x y : UInt32, x.toNat < camera.width.toNat → y.toNat < camera.height.toNat →
        out.get x y = s.primary (camera.rayAt x y) := by
  have answers : ∀ t ∈ tiles, ∃ colors, t.render camera s = .ok colors := fun t member =>
    renderAnswers sound (Tile.gridInside cut t member) (counted t member)
  obtain ⟨patches,rfl,traced⟩ := tracePatches answers
  obtain ⟨out,pasted,shown⟩ := pasteTraced cut (.refl _) traced
  refine ⟨out,?_,shown⟩
  rw [render,cut]
  exact (renderPasted traced _).trans pasted

theorem rendersEveryPixel (sound : s.Sound)
    (cut : Tile.grid camera.width camera.height s.settings.tileSize = .ok tiles)
    (counted : ∀ t ∈ tiles, ∃ n, t.pixelCount = .ok n) :
    ∃ out, render camera s = .ok out ∧ out.width = camera.width ∧ out.height = camera.height ∧
      out.pixels.size = camera.width.toNat * camera.height.toNat ∧
      (∀ x y : UInt32, x < camera.width → y < camera.height → ∃ color,
        s.primary (camera.rayAt x y) = .ok color ∧ out.get x y = .ok color) ∧
      (∀ other others, Tile.grid camera.width camera.height other = .ok others →
        (∀ t ∈ others, ∃ n, t.pixelCount = .ok n) → render camera (s.withTileSize other) = .ok out) ∧
      ∀ patches : List Patch, (patches.map Patch.tile).Perm tiles →
        (∀ p ∈ patches, p.Traced camera s) → paste (blank camera.width camera.height) patches = .ok out := by
  obtain ⟨out,rendered,spans,shown⟩ := renderShown sound cut counted
  refine ⟨out,rendered,spans.wide,spans.high,spans.whole,?_,?_,?_⟩
  · intro x y inX inY
    obtain ⟨color,seen⟩ := s.primaryAnswers sound (camera.rayAt x y)
    exact ⟨color,seen,(shown x y inX inY).trans seen⟩
  · intro other others cutOther countedOther
    obtain ⟨again,renderedOther,spansOther,shownOther⟩ :=
      @renderShown (s.withTileSize other) camera others (s.tiledSound sound other) cutOther countedOther
    rw [renderedOther,spansSame spansOther spans fun x y inX inY => ?_]
    rw [shownOther x y inX inY,shown x y inX inY,s.primaryTiled]
  · intro patches same traced
    obtain ⟨again,pasted,spansOther,shownOther⟩ := pasteTraced cut same traced
    rw [pasted,spansSame spansOther spans fun x y inX inY => ?_]
    rw [shownOther x y inX inY,shown x y inX inY]

end

def cornerShading : Shading where
  scene := ⟨#[⟨⟨0,0,0⟩,.unitZ⟩,⟨⟨1,0,0⟩,.unitZ⟩,⟨⟨0,1,0⟩,.unitZ⟩],
    #[.ofPoints ⟨0,0,0⟩ ⟨1,0,0⟩ ⟨0,1,0⟩ ⟨0,1,2⟩ .one true],#[⟨⟨0,0,3⟩⟩],none⟩
  hierarchy := ⟨#[.leaf (.ofBox ⟨⟨0,0,0⟩,⟨1,1,0⟩⟩) 0 1],#[0]⟩
  settings := { Settings.standard with tileSize := 2 }
  eye := ⟨0,0,2⟩

def cornerCamera : Camera :=
  ((Camera.standard.withResolution 3 2).withPosition ⟨0,0,2⟩ .zero .unitY).aim

theorem cornerSound : cornerShading.Sound := by
  refine ⟨by decide +kernel,?_⟩
  intro t member
  cases Array.mem_singleton.mp member
  decide +kernel

theorem cornerGrid (size : UInt32) (small : (max size 1).toNat ≤ 2) : ∃ tiles,
    Tile.grid cornerCamera.width cornerCamera.height size = .ok tiles ∧ ∀ t ∈ tiles, ∃ n, t.pixelCount = .ok n := by
  have wide : cornerCamera.width.toNat = 3 := rfl
  have high : cornerCamera.height.toNat = 2 := rfl
  obtain ⟨tiles,cut⟩ := @Tile.gridAnswers cornerCamera.width cornerCamera.height size (by omega) (by omega)
  refine ⟨tiles,cut,fun t member => Tile.insideCounted (Tile.gridInside cut t member) ?_⟩
  rw [wide,high]
  decide

theorem cornerEveryPixel : ∃ out, render cornerCamera cornerShading = .ok out ∧ out.pixels.size = 6 ∧
    (∀ x y : UInt32, x < 3 → y < 2 → ∃ color,
      cornerShading.primary (cornerCamera.rayAt x y) = .ok color ∧ out.get x y = .ok color) ∧
    render cornerCamera (cornerShading.withTileSize 0) = .ok out := by
  obtain ⟨tiles,cut,counted⟩ := cornerGrid 2 (by decide)
  obtain ⟨others,cutOther,countedOther⟩ := cornerGrid 0 (by decide)
  obtain ⟨out,rendered,_,_,whole,seen,resized,_⟩ := rendersEveryPixel cornerSound cut counted
  exact ⟨out,rendered,whole,seen,resized 0 others cutOther countedOther⟩

end Image
end Sightline
