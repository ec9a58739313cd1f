import Nes.Proofs.Ppu.SpritePicture

/-! Pictures of background and sprites. Both layers are as they would be alone, each place of the
screen shows one of them, and the first sprite in memory leaves a trace where it meets the
background. -/

namespace Nes.Ppu

section Place

variable (ppu : Ppu) (memory : UInt16 → UInt8) (x y : Nat)

/-- The colour of a place of the screen: that of the sprite in front of all others, unless it is
behind a visible background. -/
def composedColour : UInt8 :=
  match ppu.shownSprite? memory x y with
  | some sprite =>
    if ppu.BackgroundVisible memory x y ∧ sprite.attributes.byte &&& 0x20 ≠ 0 then
      ppu.backgroundColour memory x y
    else ppu.spriteColour memory x y
  | none => ppu.backgroundColour memory x y

/-- The first sprite in memory meets the background at a place of the screen. -/
structure ZeroMeets : Prop where
  column : x ≤ 254
  line : 1 ≤ y ∧ y ≤ 239
  onLine : ppu.oam.first.OnLine ppu.control.spriteHeight y
  sprite : ppu.oam.first.valueAt memory ppu.control x y ≠ 0
  unmasked : 8 ≤ x ∨ ppu.mask.byte &&& 0x04 ≠ 0
  background : ppu.BackgroundVisible memory x y

/-- The first place in the order of the raster at which the first sprite meets the background. -/
structure FirstMeeting : Prop where
  meets : ppu.ZeroMeets memory x y
  first : ∀ column line, ppu.ZeroMeets memory column line → y < line ∨ y = line ∧ x ≤ column

end Place

/-- One bit puts a sprite behind the background. -/
theorem SpriteAttributes.inFront_eq_false_iff (attributes : SpriteAttributes) :
    attributes.inFront = false ↔ attributes.byte &&& 0x20 ≠ 0 :=
  beq_eq_false_iff_ne

/-- A place at which the first sprite meets the background has been passed as soon as the first one
of them has. -/
theorem FirstMeeting.passed_iff {ppu : Ppu} {memory : UInt16 → UInt8} {x y : Nat}
    (hFirst : ppu.FirstMeeting memory x y) (start now : Nat) :
    (∃ column line, ppu.ZeroMeets memory column line ∧ start + (341 * line + (column + 1)) < now) ↔
      start + (341 * y + (x + 1)) < now := by
  have hColumn := hFirst.meets.column
  constructor
  · rintro ⟨column, line, hOther, hPassed⟩
    have hOrder := hFirst.first column line hOther
    omega
  · intro hPassed
    exact ⟨x, y, hFirst.meets, hPassed⟩

/-- The pixels that meet under the beam. Away from the screen there are none. -/
def layers (ppu : Ppu) : Layers :=
  if ppu.beam.OnPixel then
    .masked ppu.mask ppu.beam.column ((ppu.background.reload ppu.beam).pixel ppu.scroll.fineX)
      ppu.sprites.pixel
  else {}

/-- The layers under the beam give a hit where the beam is at a place of the given kind. -/
def HitsAt (ppu : Ppu) (meets : Nat → Nat → Prop) : Prop :=
  ppu.layers.hitsZero ppu.beam.column = true ↔
    ppu.beam.OnPixel ∧ meets ppu.beam.column ppu.beam.line.val

/-- A dot sets the flag where the layers under the beam give a hit, and the line before a picture
clears it. -/
theorem spriteZeroHit_tick {ppu : Ppu} (memory : UInt16 → UInt8)
    (hRendering : ppu.mask.rendering = true) :
    (ppu.tick memory).status.spriteZeroHit =
      if ppu.beam.At Beam.preRenderLine 1 then false
      else ppu.status.spriteZeroHit || ppu.layers.hitsZero ppu.beam.column := by
  rw [status_tick, if_pos hRendering, (Status.spriteFlags_tick _ _).2]
  by_cases hClear : ppu.beam.At Beam.preRenderLine 1
  · rw [if_pos hClear, decide_eq_true hClear, Bool.not_true, Bool.and_false]
  · rw [if_neg hClear, decide_eq_false hClear, Bool.not_false, Bool.and_true]
    rfl

section Tracked

variable {start ppu : Ppu} {memory : UInt16 → UInt8}

/-- Where background and sprites are shown, the colour is composed of both. -/
theorem shownColour_composed (hTracks : Tracks start memory ppu)
    (hSpriteTracks : SpriteTracks start memory ppu)
    (hSprites : start.mask.showsSprites = true) (hBackground : start.mask.showsBackground = true)
    (hInside : start.scroll.temporary.coarseY.val ≤ 29) (onPixel : ppu.beam.OnPixel) :
    ppu.shownColour = start.composedColour memory ppu.beam.column ppu.beam.line.val := by
  obtain ⟨background, hLayer⟩ : ∃ background, background =
      if start.mask.backgroundAt ppu.beam.column then
        (ppu.background.reload ppu.beam).pixel ppu.scroll.fineX
      else .transparent := ⟨_, rfl⟩
  obtain ⟨hVisible, hColour⟩ := hTracks.layer hBackground hInside onPixel hLayer
  rw [hSpriteTracks.shownColour hSprites onPixel hLayer, composedColour, spriteColour]
  cases start.shownSprite? memory ppu.beam.column ppu.beam.line.val with
  | none => exact hColour
  | some sprite =>
      simp only [← hVisible, ← SpriteAttributes.inFront_eq_false_iff]
      split
      · rename_i hHidden
        rw [if_pos hHidden.1] at hColour
        exact hColour
      · rfl

/-- The pixel of the sprites belongs to the first one in memory where that one is visible. -/
theorem ofZero_spritePixel (x y : Nat) :
    (start.spritePixel memory x y).ofZero = start.zeroVisible memory x y := by
  rw [spritePixel]
  cases hTop : (start.spriteRow memory y).top? x with
  | some sprite => rfl
  | none =>
      rw [zeroVisible, zeroOnLine]
      by_cases hZero : start.oam.first.OnLine start.control.spriteHeight y
      · obtain ⟨rest, hList⟩ := start.oam.onLine_of_first _ _ hZero
        have hMem : start.oam.first ∈ (start.spriteRow memory y).sprites := by
          rw [spriteRow, hList]
          exact List.mem_cons_self
        have hInvisible := List.find?_eq_none.mp hTop _ hMem
        rw [Bool.not_eq_true] at hInvisible
        rw [decide_eq_true hZero, Bool.true_and]
        exact hInvisible.symm
      · rw [decide_eq_false hZero]
        rfl

/-- The layers under the beam give a hit where the first sprite meets the background. -/
theorem hitsAt_zeroMeets (hTracks : Tracks start memory ppu)
    (hSpriteTracks : SpriteTracks start memory ppu)
    (hSprites : start.mask.showsSprites = true) (hBackground : start.mask.showsBackground = true)
    (hInside : start.scroll.temporary.coarseY.val ≤ 29) : ppu.HitsAt (start.ZeroMeets memory) := by
  rw [HitsAt]
  by_cases onPixel : ppu.beam.OnPixel
  · obtain ⟨hVisible, -⟩ := hTracks.layer hBackground hInside onPixel rfl
    have hColumn : ppu.beam.column ≤ 255 := by
      rw [Beam.column]
      omega
    have hOfZero : (if start.mask.spritesAt ppu.beam.column then
        start.spritePixel memory ppu.beam.column ppu.beam.line.val else {}).ofZero =
          (start.mask.spritesAt ppu.beam.column &&
            start.zeroVisible memory ppu.beam.column ppu.beam.line.val) := by
      rw [← ofZero_spritePixel]
      cases start.mask.spritesAt ppu.beam.column <;> rfl
    rw [layers, if_pos onPixel]
    simp only [Layers.hitsZero, Layers.masked, hTracks.mask, hSpriteTracks.pixel onPixel, hOfZero]
    simp only [Bool.and_eq_true, hVisible, bne_iff_ne, zeroVisible, zeroOnLine, decide_eq_true_eq,
      Mask.spritesAt, hSprites, Bool.true_and, Bool.or_eq_true, Mask.spritesOnLeft]
    constructor
    · rintro ⟨⟨⟨hUnmasked, hOnLine, hSprite⟩, hBehind⟩, hNotLast⟩
      exact ⟨onPixel,
        { column := by omega
          line := ⟨Nat.le_trans (Nat.le_add_left 1 _) hOnLine.1, Nat.le_of_lt_succ onPixel.1⟩
          onLine := hOnLine
          sprite := hSprite
          unmasked := hUnmasked
          background := hBehind }⟩
    · rintro ⟨-, hMeets⟩
      have hNotLast := hMeets.column
      exact ⟨⟨⟨hMeets.unmasked, hMeets.onLine, hMeets.sprite⟩, hMeets.background⟩, by omega⟩
  · have hNone : ({} : Layers).hitsZero ppu.beam.column = false := rfl
    rw [layers, if_neg onPixel, hNone]
    exact iff_of_false Bool.false_ne_true fun h => onPixel h.1

end Tracked

section Run

variable {ppu : Ppu} (memory : UInt16 → UInt8) {before : Nat}

/-- The places of the beam after the line before a picture are those of the picture. -/
theorem position_run_after (hBefore : ppu.beam.position + before =
    ppu.beam.lastDot ppu.mask.rendering) {dots : Nat} (hDots : dots ≤ 89340) :
    (ppu.run memory (before + 1 + dots)).beam.position = dots := by
  have hFirst := (beam_run_end ppu memory hBefore).2
  have hPosition : (ppu.run memory (before + 1)).beam.position = 0 := by
    rw [hFirst]
    rfl
  have hLast : 89340 ≤ (ppu.run memory (before + 1)).beam.lastDot
      (ppu.run memory (before + 1)).mask.rendering := by
    rw [Beam.lastDot]
    split <;> decide
  rw [run_add, (run_inside _ memory dots (by omega)).1, hPosition, Nat.zero_add]

/-- The end of a picture is reached once the line before it and its 240 lines have been gone
through. -/
theorem first_at_picture_end (hBeam : ppu.beam.At Beam.preRenderLine 0)
    (hBefore : ppu.beam.position + before = ppu.beam.lastDot ppu.mask.rendering) :
    (ppu.run memory (before + 1 + 341 * 240)).beam.At 240 0 ∧
      ∀ earlier < before + 1 + 341 * 240, ¬ (ppu.run memory earlier).beam.At 240 0 := by
  rw [Beam.at_iff_position _ (by decide), Beam.preRenderLine] at hBeam
  constructor
  · rw [Beam.at_iff_position _ (by decide), position_run_after memory hBefore (by decide)]
  · intro earlier hEarlier
    rw [Beam.at_iff_position _ (by decide)]
    by_cases hStill : earlier ≤ before
    · rw [(run_inside ppu memory earlier (by omega)).1]
      omega
    · obtain ⟨dots, rfl⟩ := Nat.exists_eq_add_of_le (show before + 1 ≤ earlier by omega)
      rw [position_run_after memory hBefore (by omega)]
      omega

theorem mask_run (dots : Nat) : (ppu.run memory dots).mask = ppu.mask := by
  induction dots with
  | zero => rfl
  | succ dots ih => rw [run_succ_tick, mask_tick, ih]

/-- On the line before a picture the flag is cleared, and nothing sets it there. -/
theorem hit_before (hBeam : ppu.beam.At Beam.preRenderLine 0)
    (hRendering : ppu.mask.rendering = true)
    (hBefore : ppu.beam.position + before = ppu.beam.lastDot ppu.mask.rendering) {dots : Nat}
    (hDots : dots + 2 ≤ before + 1) :
    (ppu.run memory (dots + 2)).status.spriteZeroHit = false := by
  rw [Beam.at_iff_position _ (by decide), Beam.preRenderLine] at hBeam
  induction dots with
  | zero =>
      have hPosition := (run_inside ppu memory 1 (by omega)).1
      have hClear : (ppu.run memory 1).beam.At Beam.preRenderLine 1 := by
        rw [Beam.at_iff_position _ (by decide), hPosition, hBeam, Beam.preRenderLine]
      rw [run_succ_tick, spriteZeroHit_tick memory (by rw [mask_run, hRendering]), if_pos hClear]
  | succ dots ih =>
      have hPosition := (run_inside ppu memory (dots + 2) (by omega)).1
      have hDot := (ppu.run memory (dots + 2)).beam.dot.isLt
      have hLater : ¬ (ppu.run memory (dots + 2)).beam.At Beam.preRenderLine 1 := by
        rw [Beam.at_iff_position _ (by decide), hPosition, hBeam, Beam.preRenderLine]
        omega
      have hOutside : ¬ (ppu.run memory (dots + 2)).beam.OnPixel := by
        rw [Beam.position] at hPosition
        simp only [Beam.OnPixel, Beam.OnVisibleLine]
        omega
      have hNone : (ppu.run memory (dots + 2)).layers = {} := if_neg hOutside
      rw [run_succ_tick, spriteZeroHit_tick memory (by rw [mask_run, hRendering]), if_neg hLater,
        ih (by omega), hNone]
      rfl

/-- On a picture the flag is set from the first dot with a hit on. -/
theorem hit_on_picture (hRendering : ppu.mask.rendering = true)
    (hBefore : ppu.beam.position + before = ppu.beam.lastDot ppu.mask.rendering)
    (hClear : (ppu.run memory (before + 1)).status.spriteZeroHit = false)
    {meets : Nat → Nat → Prop} (hScreen : ∀ x y, meets x y → x < 256 ∧ y < 240)
    (hHits : ∀ dots, (ppu.run memory dots).HitsAt meets)
    {dots : Nat} (hDots : dots ≤ 341 * 240) :
    (ppu.run memory (before + 1 + dots)).status.spriteZeroHit = true ↔
      ∃ x y, meets x y ∧ 341 * y + (x + 1) < dots := by
  induction dots with
  | zero =>
      rw [Nat.add_zero, hClear]
      exact iff_of_false Bool.false_ne_true fun ⟨x, y, hMeets⟩ => Nat.not_lt_zero _ hMeets.2
  | succ dots ih =>
      have hPosition := position_run_after memory hBefore (show dots ≤ 89340 by omega)
      have hMask : (ppu.run memory (before + 1 + dots)).mask.rendering = true := by
        rw [mask_run, hRendering]
      have hHit := hHits (before + 1 + dots)
      rw [HitsAt] at hHit
      rw [← Nat.add_assoc, run_succ_tick, spriteZeroHit_tick memory hMask]
      have hEarlier := ih (by omega)
      generalize ppu.run memory (before + 1 + dots) = now at hPosition hHit hEarlier ⊢
      have hDot := now.beam.dot.isLt
      have hColumn : now.beam.column = now.beam.dot.val - 1 := rfl
      have hNotClear : ¬ now.beam.At Beam.preRenderLine 1 := by
        rw [Beam.at_iff_position _ (by decide), hPosition, Beam.preRenderLine]
        omega
      rw [Beam.position] at hPosition
      rw [if_neg hNotClear, Bool.or_eq_true, hEarlier, hHit]
      -- The dot adds the place under the beam to those that were passed before.
      constructor
      · rintro (⟨x, y, hMeets, hPassed⟩ | ⟨onPixel, hMeets⟩)
        · exact ⟨x, y, hMeets, by omega⟩
        · have hFirst := onPixel.2.1
          exact ⟨_, _, hMeets, by omega⟩
      · rintro ⟨x, y, hMeets, hPassed⟩
        obtain ⟨hX, hY⟩ := hScreen x y hMeets
        by_cases hHere : 341 * y + (x + 1) = dots
        · have hLineHere : now.beam.line.val = y := by omega
          have hColumnHere : now.beam.column = x := by omega
          refine .inr ⟨⟨by omega, by omega, by omega⟩, ?_⟩
          rw [hLineHere, hColumnHere]
          exact hMeets
        · exact .inl ⟨x, y, hMeets, by omega⟩

/-- From the line before a picture to the end of the picture, the flag says whether a dot with a hit
has been passed. -/
theorem hit_iff_passed (hBeam : ppu.beam.At Beam.preRenderLine 0)
    (hRendering : ppu.mask.rendering = true)
    (hBefore : ppu.beam.position + before = ppu.beam.lastDot ppu.mask.rendering)
    {meets : Nat → Nat → Prop} (hScreen : ∀ x y, meets x y → x < 256 ∧ y < 240)
    (hHits : ∀ dots, (ppu.run memory dots).HitsAt meets)
    {now : Nat} (hCleared : 2 ≤ now) (hNow : now ≤ before + 1 + 341 * 240) :
    (ppu.run memory now).status.spriteZeroHit = true ↔
      ∃ x y, meets x y ∧ before + 1 + (341 * y + (x + 1)) < now := by
  have hLine {dots : Nat} (hDots : dots + 2 ≤ before + 1) :=
    hit_before memory hBeam hRendering hBefore hDots
  by_cases hEarly : now ≤ before
  · obtain ⟨dots, rfl⟩ := Nat.exists_eq_add_of_le' hCleared
    rw [hLine (by omega)]
    exact iff_of_false Bool.false_ne_true fun ⟨x, y, _, hPassed⟩ => by omega
  · obtain ⟨dots, rfl⟩ := Nat.exists_eq_add_of_le (show before + 1 ≤ now by omega)
    have hClear : (ppu.run memory (before + 1)).status.spriteZeroHit = false := by
      obtain ⟨first, hFirst⟩ := Nat.exists_eq_add_of_le' (show 1 ≤ before by
        rw [Beam.at_iff_position _ (by decide), Beam.preRenderLine] at hBeam
        rw [hBeam, Beam.lastDot] at hBefore
        split at hBefore <;> omega)
      rw [hFirst]
      exact hLine (by omega)
    rw [hit_on_picture memory hRendering hBefore hClear hScreen hHits (by omega)]
    simp only [Nat.add_lt_add_iff_left]

end Run

/-- A unit that shows background and sprites, from the start of the line before a picture on and
without any access to its registers. The second picture that it completes is composed of both
layers. At the end of the first picture after that line it is known whether the first sprite has met
the background, and it has been known from the first place at which it did. -/
theorem frame_composed {ppu : Ppu} (memory : UInt16 → UInt8)
    (hBeam : ppu.beam.At Beam.preRenderLine 0) (hSprites : ppu.mask.showsSprites = true)
    (hBackground : ppu.mask.showsBackground = true)
    (hInside : ppu.scroll.temporary.coarseY.val ≤ 29) :
    (∃ dots, (ppu.run memory dots).beam = { oddFrame := ppu.beam.oddFrame, frames :=
        ppu.beam.frames + 2 } ∧
      (∀ earlier < dots, (ppu.run memory earlier).beam.frames ≠ ppu.beam.frames + 2) ∧
      (ppu.run memory dots).Shows (ppu.composedColour memory)) ∧
    ∃ dots, (ppu.run memory dots).beam.At 240 0 ∧
      (∀ earlier < dots, ¬ (ppu.run memory earlier).beam.At 240 0) ∧
      ((ppu.run memory dots).status.spriteZeroHit = true ↔ ∃ x y, ppu.ZeroMeets memory x y) ∧
      ∀ x y, ppu.FirstMeeting memory x y →
        ∃ dot < dots, (ppu.run memory dot).beam.At y (x + 1) ∧
          ∀ now, 2 ≤ now → now ≤ dots →
            ((ppu.run memory now).status.spriteZeroHit = true ↔ dot < now) := by
  have hRendering : ppu.mask.rendering = true := by
    rw [Mask.rendering, hSprites, Bool.or_true]
  have hTracks := (tracks_of_start memory hBeam).run hRendering
  have hSpriteTracks := (spriteTracks_of_start memory hBeam).run hRendering
  obtain ⟨before, hBefore⟩ := exists_dots_to_end hBeam
  have hScreen (x y : Nat) (hMeets : ppu.ZeroMeets memory x y) : x < 256 ∧ y < 240 :=
    ⟨Nat.lt_succ_of_le (Nat.le_succ_of_le hMeets.column), Nat.lt_succ_of_le hMeets.line.2⟩
  have hPassed {now : Nat} (hCleared : 2 ≤ now) (hNow : now ≤ before + 1 + 341 * 240) :=
    hit_iff_passed memory hBeam hRendering hBefore hScreen
      (fun dots => hitsAt_zeroMeets (hTracks dots) (hSpriteTracks dots) hSprites hBackground
        hInside) hCleared hNow
  obtain ⟨hEnd, hBeforeEnd⟩ := first_at_picture_end memory hBeam hBefore
  refine ⟨second_frame memory hBeam hRendering fun dots => shownColour_composed (hTracks dots)
    (hSpriteTracks dots) hSprites hBackground hInside, before + 1 + 341 * 240, hEnd, hBeforeEnd,
    ?_, ?_⟩
  · rw [hPassed (by omega) (Nat.le_refl _)]
    constructor
    · rintro ⟨x, y, hMeets, -⟩
      exact ⟨x, y, hMeets⟩
    · rintro ⟨x, y, hMeets⟩
      have hPlace := hScreen x y hMeets
      exact ⟨x, y, hMeets, by omega⟩
  · intro x y hFirst
    have hPlace := hScreen x y hFirst.meets
    refine ⟨before + 1 + (341 * y + (x + 1)), by omega, ?_, ?_⟩
    · rw [Beam.at_iff_position _ (by omega), position_run_after memory hBefore (by omega)]
    · intro now hCleared hNow
      rw [hPassed hCleared hNow]
      exact hFirst.passed_iff (before + 1) now

/-- Two sprites that overlap on a mottled background, all without hues. The first one is behind the
background. -/
def crossingSprites : Ppu :=
  let ppu : Ppu :=
    { beam := { Beam.start with line := .last 261, oddFrame := true }
      palette := mottledPalette
      oam :=
        { bytes := Vector.ofFn fun cell =>
            match cell.val with
            | 0 | 4 => 10
            | 1 => 3
            | 2 => 0x20
            | 3 => 20
            | 5 => 5
            | 6 => 0x01
            | 7 => 22
            | _ => 0xff } }
  (ppu.write .control 0x10).write .mask 0x19

/-- The first sprite meets the background with its first pixel, as the flag shows from then on.
Where both sprites are visible the background hides both. All that is left of the colours is
grey. -/
theorem frame_crossingSprites :
    crossingSprites.beam.At Beam.preRenderLine 0 ∧ crossingSprites.mask.showsSprites = true ∧
      crossingSprites.mask.showsBackground = true ∧
      crossingSprites.scroll.temporary.coarseY.val ≤ 29 ∧
      crossingSprites.palette.colour 10 = 0x32 ∧ crossingSprites.palette.colour 21 = 0x29 ∧
      crossingSprites.FirstMeeting mottledMemory 20 11 ∧
      (∃ dots, (crossingSprites.run mottledMemory dots).beam = { oddFrame := true, frames := 2 } ∧
        (crossingSprites.run mottledMemory dots).frame[256 * 11 + 24] = 0x30 ∧
        (crossingSprites.run mottledMemory dots).frame[256 * 11 + 26] = 0x20) ∧
      ∃ dots, (crossingSprites.run mottledMemory dots).beam.At 240 0 ∧
        (crossingSprites.run mottledMemory dots).status.spriteZeroHit = true ∧
        ∃ dot < dots, (crossingSprites.run mottledMemory dot).beam.At 11 21 ∧
          ∀ now, 2 ≤ now → now ≤ dots →
            ((crossingSprites.run mottledMemory now).status.spriteZeroHit = true ↔ dot < now) := by
  have hBeam : crossingSprites.beam.At Beam.preRenderLine 0 := ⟨rfl, rfl⟩
  have hSprites : crossingSprites.mask.showsSprites = true := by decide
  have hBackground : crossingSprites.mask.showsBackground = true := by decide
  have hInside : crossingSprites.scroll.temporary.coarseY.val ≤ 29 := by decide
  have hHues : crossingSprites.palette.colour 10 = 0x32 ∧
      crossingSprites.palette.colour 21 = 0x29 := by decide
  have hHidden : crossingSprites.composedColour mottledMemory 24 11 = 0x30 := by decide +kernel
  have hSecond : crossingSprites.composedColour mottledMemory 26 11 = 0x20 := by decide +kernel
  have hMeets : crossingSprites.ZeroMeets mottledMemory 20 11 :=
    { column := by decide
      line := by decide
      onLine := by decide +kernel
      sprite := by decide +kernel
      unmasked := by decide
      background := by decide +kernel }
  have hY : crossingSprites.oam.first.y.toNat = 10 := by decide +kernel
  have hX : crossingSprites.oam.first.x.toNat = 20 := by decide +kernel
  have hFirst : crossingSprites.FirstMeeting mottledMemory 20 11 := by
    refine ⟨hMeets, fun column line hOther => ?_⟩
    obtain ⟨hLine, -⟩ := hOther.onLine
    have hVisible := hOther.sprite
    rw [Sprite.valueAt] at hVisible
    split at hVisible
    · omega
    · exact absurd rfl hVisible
  obtain ⟨⟨dots, hEnd, -, hFrame⟩, last, hLast, -, hFlag, hTurn⟩ :=
    frame_composed mottledMemory hBeam hSprites hBackground hInside
  exact ⟨hBeam, hSprites, hBackground, hInside, hHues.1, hHues.2, hFirst,
    ⟨dots, hEnd, (hFrame 24 11 (by decide) (by decide)).trans hHidden,
      (hFrame 26 11 (by decide) (by decide)).trans hSecond⟩,
    last, hLast, hFlag.mpr ⟨20, 11, hMeets⟩, hTurn 20 11 hFirst⟩

end Nes.Ppu
