import Nes.Proofs.Ppu.Picture
import Nes.Proofs.Ppu.SpriteRendering

/-! Pictures with sprites. A unit that shows only sprites shows on each line the sprites that memory
gives for it. -/

namespace Nes.Ppu

/-- The palette entry of a pixel of a sprite. -/
def Sprite.entryAt (sprite : Sprite) (memory : UInt16 → UInt8) (control : Control) (x y : Nat) :
    Nat :=
  16 + 4 * (sprite.attributes.byte.toNat % 4) + sprite.valueAt memory control x y

/-- The sprite that is in front of all others at a place of the screen. -/
def shownSprite? (ppu : Ppu) (memory : UInt16 → UInt8) (x y : Nat) : Option Sprite :=
  if 8 ≤ x ∨ ppu.mask.byte &&& 0x04 ≠ 0 then (ppu.spriteRow memory y).top? x else none

/-- The colour of the sprites at a place of the screen, or the first colour if there are none. -/
def spriteColour (ppu : Ppu) (memory : UInt16 → UInt8) (x y : Nat) : UInt8 :=
  match ppu.shownSprite? memory x y with
  | some sprite => ppu.entryColour (sprite.entryAt memory ppu.control x y)
  | none => ppu.entryColour 0

/-- There are four values for a pixel of a sprite. -/
theorem Sprite.valueAt_lt (sprite : Sprite) (memory : UInt16 → UInt8) (control : Control)
    (x y : Nat) : sprite.valueAt memory control x y < 4 := by
  rw [valueAt]
  split
  · exact ShiftRegister.pixelOf_lt _ _
  · decide

/-- A visible sprite pixel is hidden only behind a visible background. -/
theorem Pixel.compose_visible (background : Pixel) {sprite : SpritePixel}
    (hVisible : sprite.isVisible = true) :
    background.compose sprite =
      if background.isVisible = true ∧ sprite.inFront = false then background.entry
      else 0x10 + sprite.entry := by
  rw [compose, hVisible]
  cases background.isVisible <;> cases sprite.inFront <;> rfl

/-- The address of a sprite pixel is that of its palette entry. -/
theorem entry_spritePixel {sprite : Sprite} {memory : UInt16 → UInt8} {control : Control}
    {x y : Nat} {pixel : Pixel} (hPalette : pixel.palette = sprite.attributes.palette)
    (hValue : pixel.value = UInt8.ofNat (sprite.valueAt memory control x y)) :
    0x10 + pixel.entry = UInt16.ofNat (sprite.entryAt memory control x y) := by
  have hLt := sprite.valueAt_lt memory control x y
  have hBits : sprite.attributes.byte.toNat &&& 3 = sprite.attributes.byte.toNat % 4 :=
    Nat.and_two_pow_sub_one_eq_mod _ 2
  rw [Pixel.entry, hPalette, hValue, SpriteAttributes.palette, Sprite.entryAt,
    ← UInt16.toNat_inj, UInt8.toNat_and, show (0x03 : UInt8).toNat = 3 from rfl, hBits,
    UInt16.toNat_add, UInt16.toNat_ofNat', UInt16.toNat_ofNat', UInt8.toNat_ofNat',
    show (0x10 : UInt16).toNat = 16 from rfl]
  omega

section Place

variable {ppu : Ppu} {memory : UInt16 → UInt8} {x y : Nat}

/-- The sprite that is in front of all others is visible. -/
theorem valueAt_of_shown {sprite : Sprite} (hShown : ppu.shownSprite? memory x y = some sprite) :
    sprite.valueAt memory ppu.control x y ≠ 0 := by
  rw [shownSprite?] at hShown
  split at hShown
  · have hVisible := List.find?_some hShown
    exact bne_iff_ne.mp hVisible
  · cases hShown

/-- The sprite pixel that the mask lets through is that of the sprite in front of all others. -/
theorem spritePixel_masked (hSprites : ppu.mask.showsSprites = true) :
    (if ppu.mask.spritesAt x then ppu.spritePixel memory x y else {}) =
      match ppu.shownSprite? memory x y with
      | some sprite =>
        { palette := sprite.attributes.palette
          value := UInt8.ofNat (sprite.valueAt memory ppu.control x y)
          inFront := sprite.attributes.inFront
          ofZero := ppu.zeroVisible memory x y }
      | none => {} := by
  have hAt : ppu.mask.spritesAt x = true ↔ 8 ≤ x ∨ ppu.mask.byte &&& 0x04 ≠ 0 := by
    rw [Mask.spritesAt, hSprites, Bool.true_and, Bool.or_eq_true, decide_eq_true_eq,
      Mask.spritesOnLeft, bne_iff_ne]
  rw [shownSprite?]
  by_cases hShown : 8 ≤ x ∨ ppu.mask.byte &&& 0x04 ≠ 0
  · rw [if_pos (hAt.mpr hShown), if_pos hShown]
    rfl
  · rw [if_neg fun h => hShown (hAt.mp h), if_neg hShown]

/-- What is shown where the sprites meet the background. -/
theorem compose_spritePixel (hSprites : ppu.mask.showsSprites = true) (background : Pixel) :
    background.compose (if ppu.mask.spritesAt x then ppu.spritePixel memory x y else {}) =
      match ppu.shownSprite? memory x y with
      | some sprite =>
        if background.isVisible = true ∧ sprite.attributes.inFront = false then background.entry
        else UInt16.ofNat (sprite.entryAt memory ppu.control x y)
      | none => if background.isVisible = true then background.entry else 0 := by
  rw [spritePixel_masked hSprites]
  cases hShown : ppu.shownSprite? memory x y with
  | none => exact background.compose_none
  | some sprite =>
      have hValue := valueAt_of_shown hShown
      have hLt := sprite.valueAt_lt memory ppu.control x y
      have hVisible : UInt8.ofNat (sprite.valueAt memory ppu.control x y) ≠ 0 := by
        intro hZero
        have hNat := congrArg UInt8.toNat hZero
        rw [UInt8.toNat_ofNat', UInt8.toNat_zero] at hNat
        omega
      simp only
      rw [background.compose_visible (bne_iff_ne.mpr hVisible), entry_spritePixel rfl rfl]

end Place

/-- The colour under the beam comes from the sprites of its line and from the background that the
mask lets through. -/
theorem SpriteTracks.shownColour {start ppu : Ppu} {memory : UInt16 → UInt8}
    (hTracks : SpriteTracks start memory ppu) (hSprites : start.mask.showsSprites = true)
    (onPixel : ppu.beam.OnPixel) {background : Pixel}
    (hBackground : background = if start.mask.backgroundAt ppu.beam.column then
      (ppu.background.reload ppu.beam).pixel ppu.scroll.fineX else .transparent) :
    ppu.shownColour =
      match start.shownSprite? memory ppu.beam.column ppu.beam.line.val with
      | some sprite =>
        if background.isVisible = true ∧ sprite.attributes.inFront = false then
          start.palette.read start.mask background.entry
        else
          start.entryColour
            (sprite.entryAt memory start.control ppu.beam.column ppu.beam.line.val)
      | none => start.palette.read start.mask
          (if background.isVisible = true then background.entry else 0) := by
  rw [Ppu.shownColour, Layers.address, Layers.masked, hTracks.mask, hTracks.palette,
    hTracks.pixel onPixel, ← hBackground, compose_spritePixel hSprites]
  cases hShown : start.shownSprite? memory ppu.beam.column ppu.beam.line.val with
  | none => rfl
  | some sprite =>
      have hValue := valueAt_of_shown hShown
      have hLt := sprite.valueAt_lt memory start.control ppu.beam.column ppu.beam.line.val
      simp only
      rw [apply_ite (start.palette.read start.mask), start.read_eq_entryColour]
      · rw [Sprite.entryAt]
        omega
      · rw [Sprite.entryAt]
        omega

/-- The first line has no sprites. -/
theorem spriteColour_first (ppu : Ppu) (memory : UInt16 → UInt8) (x : Nat) :
    ppu.spriteColour memory x 0 = ppu.entryColour 0 := by
  have hRow : (ppu.spriteRow memory 0).top? x = none := by
    rw [SpriteRow.top?, spriteRow, Oam.onLine_zero]
    rfl
  rw [spriteColour, shownSprite?, hRow, ite_self]

/-- Where nothing but sprites is shown, the colour is that of the sprites. -/
theorem SpriteTracks.shownColour_alone {start ppu : Ppu} {memory : UInt16 → UInt8}
    (hTracks : SpriteTracks start memory ppu) (hSprites : start.mask.showsSprites = true)
    (hBackground : start.mask.showsBackground = false) (onPixel : ppu.beam.OnPixel) :
    ppu.shownColour = start.spriteColour memory ppu.beam.column ppu.beam.line.val := by
  have hHidden : start.mask.backgroundAt ppu.beam.column = false := by
    rw [Mask.backgroundAt, hBackground, Bool.false_and]
  have hEmpty : Pixel.transparent.isVisible = false := rfl
  have hColour := hTracks.shownColour hSprites onPixel rfl
  rw [hHidden, if_neg Bool.false_ne_true, hEmpty] at hColour
  rw [hColour, spriteColour]
  cases start.shownSprite? memory ppu.beam.column ppu.beam.line.val with
  | some sprite => rfl
  | none => exact start.read_zero

/-- A unit that shows only sprites. From the start of the line before a picture, and without any
access to its registers, the second picture that it completes shows no sprite on the first line, and
on every line the first sprites in memory that have a row there. -/
theorem frame_eq_sprites {ppu : Ppu} (memory : UInt16 → UInt8)
    (hBeam : ppu.beam.At Beam.preRenderLine 0) (hSprites : ppu.mask.showsSprites = true)
    (hBackground : ppu.mask.showsBackground = false) :
    ∃ dots, (ppu.run memory dots).beam = { oddFrame := ppu.beam.oddFrame, frames :=
        ppu.beam.frames + 2 } ∧
      (∀ earlier < dots, (ppu.run memory earlier).beam.frames ≠ ppu.beam.frames + 2) ∧
      (ppu.run memory dots).Shows fun x y =>
        if y = 0 then ppu.entryColour 0 else ppu.spriteColour memory x y := by
  have hRendering : ppu.mask.rendering = true := by
    rw [Mask.rendering, hSprites, Bool.or_true]
  have hTracks := (spriteTracks_of_start memory hBeam).run hRendering
  obtain ⟨dots, hEnd, hEarlier, hFrame⟩ := second_frame memory hBeam hRendering
    fun dots => (hTracks dots).shownColour_alone hSprites hBackground
  refine ⟨dots, hEnd, hEarlier, ?_⟩
  intro x y hX hY
  rw [hFrame x y hX hY]
  by_cases hFirst : y = 0
  · simp only [hFirst, if_true, spriteColour_first]
  · simp only [hFirst, if_false]

/-- Tall sprites without hues that all begin on one line, four columns apart, and show their
pictures upside down and mirrored. Only the first eight have a place. -/
def crowdedLine : Ppu :=
  let ppu : Ppu :=
    { beam := { Beam.start with line := .last 261 }
      palette := mottledPalette
      oam :=
        { bytes := Vector.ofFn fun cell =>
            UInt8.ofNat (match cell.val % 4 with
              | 0 => 10
              | 1 => cell.val
              | 2 => 0xc0 + cell.val / 4 % 4
              | _ => cell.val - 3) } }
  (ppu.write .control 0x20).write .mask 0x11

/-- The eighth sprite shows through a transparent pixel of the one before it, in what is left of its
colour, and the ninth is not shown at all. -/
theorem frame_crowdedLine :
    crowdedLine.beam.At Beam.preRenderLine 0 ∧ crowdedLine.mask.showsSprites = true ∧
      crowdedLine.mask.showsBackground = false ∧ crowdedLine.palette.colour 31 = 0x1b ∧
      ∃ dots, (crowdedLine.run mottledMemory dots).beam = { oddFrame := false, frames := 2 } ∧
        (crowdedLine.run mottledMemory dots).frame[256 * 13 + 30] = 0x10 ∧
        (crowdedLine.run mottledMemory dots).frame[256 * 13 + 36] = 0 := by
  have hBeam : crowdedLine.beam.At Beam.preRenderLine 0 := ⟨rfl, rfl⟩
  have hSprites : crowdedLine.mask.showsSprites = true := by decide
  have hBackground : crowdedLine.mask.showsBackground = false := by decide
  have hHue : crowdedLine.palette.colour 31 = 0x1b := by decide
  have hEighth : crowdedLine.spriteColour mottledMemory 30 13 = 0x10 := by decide +kernel
  have hNinth : crowdedLine.spriteColour mottledMemory 36 13 = 0 := by decide +kernel
  obtain ⟨dots, hEnd, -, hFrame⟩ :=
    frame_eq_sprites mottledMemory hBeam hSprites hBackground
  have hBelow : ¬ 13 = 0 := by decide
  exact ⟨hBeam, hSprites, hBackground, hHue, dots, hEnd,
    (hFrame 30 13 (by decide) (by decide)).trans ((if_neg hBelow).trans hEighth),
    (hFrame 36 13 (by decide) (by decide)).trans ((if_neg hBelow).trans hNinth)⟩

end Nes.Ppu
