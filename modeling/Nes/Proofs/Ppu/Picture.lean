import Nes.Proofs.Ppu.Raster
import Nes.Proofs.Ppu.Rendering

/-! Whole pictures. A unit that renders draws its picture pixel by pixel and shows it at the end,
and a unit that shows only the background shows the map. -/

namespace Nes.Ppu

/-- Drawing changes one pixel of the picture that is being drawn. -/
theorem Screen.back_draw (screen : Screen) (beam : Beam) (onPixel : beam.OnPixel) (colour : UInt8)
    {place : Nat} (hPlace : place < 61440) :
    (screen.draw beam onPixel colour).back[place] =
      if 256 * beam.line.val + beam.column = place then colour else screen.back[place] :=
  Vector.getElem_set (Screen.index beam onPixel).isLt hPlace

/-- The picture that is shown has the given colours. -/
def Shows (ppu : Ppu) (picture : Nat → Nat → UInt8) : Prop :=
  ∀ x y, (hX : x < 256) → (hY : y < 240) → ppu.frame[256 * y + x] = picture x y

/-- The colour that a rendering unit draws under the beam. -/
def shownColour (ppu : Ppu) : UInt8 :=
  ppu.palette.read ppu.mask (Layers.masked ppu.mask ppu.beam.column
    ((ppu.background.reload ppu.beam).pixel ppu.scroll.fineX) ppu.sprites.pixel).address

def drawn (ppu : Ppu) : Screen :=
  if onPixel : ppu.beam.OnPixel then ppu.screen.draw ppu.beam onPixel ppu.shownColour
  else ppu.screen

/-- A dot draws its pixel, and the last one shows the picture. -/
theorem screen_tick {ppu : Ppu} (memory : UInt16 → UInt8) (hRendering : ppu.mask.rendering = true) :
    (ppu.tick memory).screen =
      if ppu.beam.EndsFrame ppu.mask.rendering then ppu.drawn.swap else ppu.drawn := by
  have hDrawn : (ppu.render memory).screen = ppu.drawn := by
    rw [drawn]
    simp only [render]
    split
    · rename_i onPixel
      simp only [shownColour]
    · rfl
  rw [tick, if_pos hRendering]
  simp only [finishDot, hDrawn]
  rfl

/-- All pixels that the beam has passed are those of a picture. -/
def Painted (picture : Nat → Nat → UInt8) (ppu : Ppu) : Prop :=
  ∀ x y, (hX : x < 256) → (hY : y < 240) →
    (y < ppu.beam.line.val ∨ y = ppu.beam.line.val ∧ x + 1 < ppu.beam.dot.val) →
    ppu.screen.back[256 * y + x] = picture x y

/-- The pixel under the beam joins those that were drawn before. -/
theorem Painted.drawn {picture : Nat → Nat → UInt8} {ppu : Ppu} (hPainted : Painted picture ppu)
    (hColour : ppu.beam.OnPixel → ppu.shownColour = picture ppu.beam.column ppu.beam.line.val)
    (x y : Nat) (hX : x < 256) (hY : y < 240)
    (hPassed : y < ppu.beam.line.val ∨ y = ppu.beam.line.val ∧ x + 1 ≤ ppu.beam.dot.val) :
    ppu.drawn.back[256 * y + x] = picture x y := by
  by_cases onPixel : ppu.beam.OnPixel
  · have hDrawn : ppu.drawn = ppu.screen.draw ppu.beam onPixel ppu.shownColour := by
      rw [Ppu.drawn, dif_pos onPixel]
    have hColumn : ppu.beam.column = ppu.beam.dot.val - 1 := rfl
    have hFirst : 1 ≤ ppu.beam.dot.val := onPixel.2.1
    have hLast : ppu.beam.dot.val ≤ 256 := onPixel.2.2
    simp only [hDrawn]
    rw [Screen.back_draw _ _ onPixel _ (by omega)]
    by_cases hHere : y = ppu.beam.line.val ∧ x = ppu.beam.column
    · rw [if_pos (by omega), hColour onPixel, hHere.1, hHere.2]
    · rw [if_neg (by omega)]
      exact hPainted x y hX hY (by omega)
  · have hDrawn : ppu.drawn = ppu.screen := by rw [Ppu.drawn, dif_neg onPixel]
    have hOutside : ¬ (ppu.beam.line.val < 240 ∧ 1 ≤ ppu.beam.dot.val ∧
        ppu.beam.dot.val ≤ 256) := onPixel
    simp only [hDrawn]
    exact hPainted x y hX hY (by omega)

/-- A dot inside a picture leaves one pixel more behind. -/
theorem Painted.tick {picture : Nat → Nat → UInt8} {ppu : Ppu} (hPainted : Painted picture ppu)
    (memory : UInt16 → UInt8) (hRendering : ppu.mask.rendering = true)
    (hColour : ppu.beam.OnPixel → ppu.shownColour = picture ppu.beam.column ppu.beam.line.val)
    (hInside : ¬ ppu.beam.EndsFrame ppu.mask.rendering) : Painted picture (ppu.tick memory) := by
  have hScreen := screen_tick memory hRendering
  rw [if_neg hInside] at hScreen
  intro x y hX hY hPassed
  simp only [hScreen]
  refine hPainted.drawn hColour x y hX hY ?_
  have hNext := ppu.beam.next_cases ppu.mask.rendering
  rw [beam_tick] at hPassed
  omega

section Run

variable {picture : Nat → Nat → UInt8} {ppu : Ppu} {memory : UInt16 → UInt8}

/-- From the first dot of a picture on, the beam leaves the pixels of the picture behind. -/
theorem painted_run (hStart : ppu.beam.position = 0) (hRendering : ppu.mask.rendering = true)
    (hColour : ∀ dots, (ppu.run memory dots).beam.OnPixel → (ppu.run memory dots).shownColour =
      picture (ppu.run memory dots).beam.column (ppu.run memory dots).beam.line.val)
    {dots : Nat} (hDots : dots ≤ ppu.beam.lastDot ppu.mask.rendering) :
    Painted picture (ppu.run memory dots) := by
  induction dots with
  | zero =>
      intro x y hX hY hPassed
      simp only [Beam.position] at hStart
      rw [run_zero] at hPassed
      omega
  | succ dots ih =>
      obtain ⟨hPosition, -, hOdd, hMask⟩ := run_inside ppu memory dots (by omega)
      have hLast : (ppu.run memory dots).beam.lastDot (ppu.run memory dots).mask.rendering =
          ppu.beam.lastDot ppu.mask.rendering := by
        rw [Beam.lastDot, Beam.lastDot, hOdd, hMask]
      have hInside :
          ¬ (ppu.run memory dots).beam.EndsFrame (ppu.run memory dots).mask.rendering := by
        rw [Beam.endsFrame_iff _ _ (by omega)]
        omega
      rw [run_succ_tick]
      exact (ih (by omega)).tick memory (by rw [hMask, hRendering]) (hColour dots) hInside

/-- At the end of a picture it is shown. -/
theorem frame_run (hStart : ppu.beam.position = 0) (hRendering : ppu.mask.rendering = true)
    (hColour : ∀ dots, (ppu.run memory dots).beam.OnPixel → (ppu.run memory dots).shownColour =
      picture (ppu.run memory dots).beam.column (ppu.run memory dots).beam.line.val)
    (x y : Nat) (hX : x < 256) (hY : y < 240) :
    (ppu.run memory (ppu.beam.lastDot ppu.mask.rendering + 1)).frame[256 * y + x] =
      picture x y := by
  let last := ppu.run memory (ppu.beam.lastDot ppu.mask.rendering)
  have hPainted : Painted picture last := painted_run hStart hRendering hColour (Nat.le_refl _)
  obtain ⟨hEnd, -⟩ := beam_run_end ppu memory (by rw [hStart, Nat.zero_add])
  have hMask : last.mask = ppu.mask :=
    (run_inside ppu memory _ (by omega)).2.2.2
  have hLastEnd : last.beam.EndsFrame last.mask.rendering := by
    rw [hMask]
    exact hEnd
  have hScreen := screen_tick memory (show last.mask.rendering = true by rw [hMask, hRendering])
  rw [if_pos hLastEnd] at hScreen
  have hFrame : (ppu.run memory (ppu.beam.lastDot ppu.mask.rendering + 1)).frame =
      last.drawn.back := by
    rw [run_succ_tick, frame, hScreen]
    rfl
  simp only [hFrame]
  refine hPainted.drawn (hColour _) x y hX hY (.inl ?_)
  have hLine : last.beam.line.val = 261 := hEnd.1
  omega

end Run

/-- The colour of a palette entry on the screen. The lowest bit of the mask takes the hue away. -/
def entryColour (ppu : Ppu) (entry : Nat) : UInt8 :=
  ppu.palette.colours[entry]?.getD 0 &&& if ppu.mask.byte &&& 0x01 = 0 then 0x3f else 0x30

/-- The colour of the map that a pixel of the screen shows. -/
def backgroundColour (ppu : Ppu) (memory : UInt16 → UInt8) (x y : Nat) : UInt8 :=
  let column := mapColumn ppu.scroll x
  let row := mapRow ppu.scroll y
  let value := mapValue memory ppu.control column row
  if value ≠ 0 ∧ (8 ≤ x ∨ ppu.mask.byte &&& 0x02 ≠ 0) then
    ppu.entryColour (4 * mapPalette memory column row + value)
  else
    ppu.entryColour 0

/-- Whether the background is visible at a place of the screen. -/
abbrev BackgroundVisible (ppu : Ppu) (memory : UInt16 → UInt8) (x y : Nat) : Prop :=
  mapValue memory ppu.control (mapColumn ppu.scroll x) (mapRow ppu.scroll y) ≠ 0 ∧
    (8 ≤ x ∨ ppu.mask.byte &&& 0x02 ≠ 0)

/-- The address of an entry other than the first one of a sprite palette leads to its own cell. -/
theorem Palette.index_ofNat {entry : Nat} (hEntry : entry < 32)
    (hOwn : entry < 16 ∨ entry % 4 ≠ 0) : index (UInt16.ofNat entry) = ⟨entry, hEntry⟩ := by
  have hAddress : (UInt16.ofNat entry).toNat = entry := by
    rw [UInt16.toNat_ofNat']
    omega
  simp only [index, hAddress, Fin.ext_iff]
  split
  · simp only
    omega
  · exact Nat.mod_eq_of_lt hEntry

/-- The unit reads a palette entry as it is shown on the screen. -/
theorem read_eq_entryColour (ppu : Ppu) {entry : Nat} (hEntry : entry < 32)
    (hOwn : entry < 16 ∨ entry % 4 ≠ 0) :
    ppu.palette.read ppu.mask (UInt16.ofNat entry) = ppu.entryColour entry := by
  have hBits : ppu.mask.colourBits = if ppu.mask.byte &&& 0x01 = 0 then 0x3f else 0x30 := by
    simp only [Mask.colourBits, Mask.greyscale, bne_iff_ne, ne_eq, ite_not]
  have hCell : ppu.palette.colour (UInt16.ofNat entry) = ppu.palette.colours[entry]?.getD 0 := by
    simp only [Palette.colour, Palette.index_ofNat hEntry hOwn, Fin.getElem_fin,
      Vector.getElem?_eq_getElem hEntry, Option.getD_some]
  rw [Palette.read, hCell, hBits, entryColour]

theorem read_zero (ppu : Ppu) : ppu.palette.read ppu.mask 0 = ppu.entryColour 0 :=
  ppu.read_eq_entryColour (by decide) (.inl (by decide))

theorem Pixel.compose_none (background : Pixel) :
    background.compose {} = if background.isVisible = true then background.entry else 0 := rfl

/-- A pixel is visible unless its value is zero. -/
theorem Pixel.isVisible_iff (pixel : Pixel) : pixel.isVisible = true ↔ pixel.value.toNat ≠ 0 := by
  rw [isVisible, bne_iff_ne, ne_eq, ← UInt8.toNat_inj]
  rfl

/-- The background pixel that the mask lets through is that of the map. -/
theorem Tracks.layer {start ppu : Ppu} {memory : UInt16 → UInt8} (hTracks : Tracks start memory ppu)
    (hBackground : start.mask.showsBackground = true)
    (hInside : start.scroll.temporary.coarseY.val ≤ 29) (onPixel : ppu.beam.OnPixel)
    {background : Pixel}
    (hLayer : background = if start.mask.backgroundAt ppu.beam.column then
      (ppu.background.reload ppu.beam).pixel ppu.scroll.fineX else .transparent) :
    (background.isVisible = true ↔
        start.BackgroundVisible memory ppu.beam.column ppu.beam.line.val) ∧
      start.palette.read start.mask
          (if background.isVisible = true then background.entry else 0) =
        start.backgroundColour memory ppu.beam.column ppu.beam.line.val := by
  obtain ⟨hValue, hPalette⟩ := hTracks.pixel hInside onPixel
  have hAt : start.mask.backgroundAt ppu.beam.column = true ↔
      8 ≤ ppu.beam.column ∨ start.mask.byte &&& 0x02 ≠ 0 := by
    rw [Mask.backgroundAt, hBackground, Bool.true_and, Bool.or_eq_true, decide_eq_true_eq,
      Mask.backgroundOnLeft, bne_iff_ne]
  rw [backgroundColour]
  by_cases hShown : 8 ≤ ppu.beam.column ∨ start.mask.byte &&& 0x02 ≠ 0
  · rw [if_pos (hAt.mpr hShown)] at hLayer
    rw [← hLayer] at hValue hPalette
    have hVisible : background.isVisible = true ↔
        start.BackgroundVisible memory ppu.beam.column ppu.beam.line.val := by
      rw [Pixel.isVisible_iff, hValue]
      exact ⟨fun h => ⟨h, hShown⟩, fun h => h.1⟩
    have hPaletteLt := mapPalette_lt memory (mapColumn start.scroll ppu.beam.column)
      (mapRow start.scroll ppu.beam.line.val)
    have hValueLt := mapValue_lt memory start.control (mapColumn start.scroll ppu.beam.column)
      (mapRow start.scroll ppu.beam.line.val)
    refine ⟨hVisible, ?_⟩
    simp only [hVisible]
    rw [apply_ite (start.palette.read start.mask), Pixel.entry, hValue, hPalette,
      Nat.mod_eq_of_lt hPaletteLt, Nat.mod_eq_of_lt hValueLt,
      start.read_eq_entryColour (by omega) (by omega), start.read_zero]
  · have hEmpty : ¬ Pixel.transparent.isVisible = true := Bool.false_ne_true
    rw [if_neg fun h => hShown (hAt.mp h)] at hLayer
    rw [hLayer, if_neg hEmpty, if_neg fun h => hShown h.2]
    exact ⟨iff_of_false hEmpty fun h => hShown h.2, start.read_zero⟩

/-- Where nothing but the background is shown, the colour is that of the map. -/
theorem Tracks.shownColour {start ppu : Ppu} {memory : UInt16 → UInt8}
    (hTracks : Tracks start memory ppu) (hBackground : start.mask.showsBackground = true)
    (hSprites : start.mask.showsSprites = false)
    (hInside : start.scroll.temporary.coarseY.val ≤ 29) (onPixel : ppu.beam.OnPixel) :
    ppu.shownColour = start.backgroundColour memory ppu.beam.column ppu.beam.line.val := by
  obtain ⟨-, hColour⟩ := hTracks.layer hBackground hInside onPixel rfl
  have hHidden : start.mask.spritesAt ppu.beam.column = false := by
    rw [Mask.spritesAt, hSprites, Bool.false_and]
  rw [Ppu.shownColour, hTracks.mask, hTracks.palette, Layers.address, Layers.masked, hHidden,
    if_neg Bool.false_ne_true, Pixel.compose_none]
  exact hColour

/-- The end of the line before a picture is ahead. -/
theorem exists_dots_to_end {ppu : Ppu} (hBeam : ppu.beam.At Beam.preRenderLine 0) :
    ∃ before, ppu.beam.position + before = ppu.beam.lastDot ppu.mask.rendering := by
  refine Nat.le.dest ?_
  rw [Beam.at_iff_position _ (by decide), Beam.preRenderLine] at hBeam
  rw [hBeam, Beam.lastDot]
  split <;> decide

/-- From the start of the line before a picture on, the second picture that is completed consists of
the colours that were drawn. -/
theorem second_frame {picture : Nat → Nat → UInt8} {ppu : Ppu} (memory : UInt16 → UInt8)
    (hBeam : ppu.beam.At Beam.preRenderLine 0) (hRendering : ppu.mask.rendering = true)
    (hColour : ∀ dots, (ppu.run memory dots).beam.OnPixel → (ppu.run memory dots).shownColour =
      picture (ppu.run memory dots).beam.column (ppu.run memory dots).beam.line.val) :
    ∃ dots, (ppu.run memory dots).beam = { oddFrame := ppu.beam.oddFrame, frames :=
        ppu.beam.frames + 2 } ∧
      (∀ earlier < dots, (ppu.run memory earlier).beam.frames ≠ ppu.beam.frames + 2) ∧
      (ppu.run memory dots).Shows picture := by
  obtain ⟨before, hBefore⟩ := exists_dots_to_end hBeam
  obtain ⟨hEnd, hEarlier⟩ := run_second_end memory hBefore
  obtain ⟨-, -, -, hMask⟩ := run_inside ppu memory before (Nat.le_of_eq hBefore)
  have hFirst := (beam_run_end ppu memory hBefore).2
  have hFirstRendering : (ppu.run memory (before + 1)).mask.rendering = true := by
    rw [run_succ_tick, mask_tick, hMask, hRendering]
  have hFirstPosition : (ppu.run memory (before + 1)).beam.position = 0 := by
    rw [hFirst]
    rfl
  refine ⟨_, hEnd, hEarlier, ?_⟩
  intro x y hX hY
  simp only [run_add ppu memory (before + 1)]
  refine frame_run hFirstPosition hFirstRendering ?_ x y hX hY
  intro dots onPixel
  rw [← run_add] at onPixel ⊢
  exact hColour _ onPixel

/-- A unit that shows only the background. From the start of the line before a picture, and without
any access to its registers, the second picture that it completes is the part of the map that begins
at the prepared scroll position. -/
theorem frame_eq_background_map {ppu : Ppu} (memory : UInt16 → UInt8)
    (hBeam : ppu.beam.At Beam.preRenderLine 0) (hBackground : ppu.mask.showsBackground = true)
    (hSprites : ppu.mask.showsSprites = false)
    (hInside : ppu.scroll.temporary.coarseY.val ≤ 29) :
    ∃ dots, (ppu.run memory dots).beam = { oddFrame := ppu.beam.oddFrame, frames :=
        ppu.beam.frames + 2 } ∧
      (∀ earlier < dots, (ppu.run memory earlier).beam.frames ≠ ppu.beam.frames + 2) ∧
      ∀ x y, (hX : x < 256) → (hY : y < 240) →
        (ppu.run memory dots).frame[256 * y + x] = ppu.backgroundColour memory x y := by
  have hRendering : ppu.mask.rendering = true := by
    rw [Mask.rendering, hBackground, Bool.true_or]
  have hTracks := tracks_of_start memory hBeam
  exact second_frame memory hBeam hRendering fun dots onPixel =>
    (hTracks.run hRendering dots).shownColour hBackground hSprites hInside onPixel

/-- A palette without equal colours. -/
def mottledPalette : Palette where
  colours := Vector.ofFn fun cell => UInt8.ofNat (5 * cell.val % 64)

/-- A memory without equal tiles side by side. -/
def mottledMemory (address : UInt16) : UInt8 :=
  UInt8.ofNat (address.toNat * 7 % 251)

/-- A unit that shows the background without hues and from the last tile of the map on, so that the
picture continues on all four nametables. -/
def scrolledToCorner : Ppu :=
  let ppu : Ppu :=
    { beam := { Beam.start with line := .last 261, oddFrame := true }
      palette := mottledPalette }
  (((ppu.write .control 0x13).write .mask 0x09).write .scroll 0xfd).write .scroll 0xef

/-- A pixel of a scrolled picture, which comes from the upper left nametable. What is left of its
colour is grey. -/
theorem frame_scrolledToCorner :
    scrolledToCorner.beam.At Beam.preRenderLine 0 ∧ scrolledToCorner.mask.showsBackground = true ∧
      scrolledToCorner.mask.showsSprites = false ∧
      scrolledToCorner.scroll.temporary.coarseY.val ≤ 29 ∧
      scrolledToCorner.palette.colour 10 = 0x32 ∧
      ∃ dots, (scrolledToCorner.run mottledMemory dots).beam = { oddFrame := true, frames := 2 } ∧
        (scrolledToCorner.run mottledMemory dots).frame[256 * 1 + 20] = 0x30 := by
  have hBeam : scrolledToCorner.beam.At Beam.preRenderLine 0 := ⟨rfl, rfl⟩
  have hBackground : scrolledToCorner.mask.showsBackground = true := by decide
  have hSprites : scrolledToCorner.mask.showsSprites = false := by decide
  have hInside : scrolledToCorner.scroll.temporary.coarseY.val ≤ 29 := by decide
  have hHue : scrolledToCorner.palette.colour 10 = 0x32 := by decide
  have hColour : scrolledToCorner.backgroundColour mottledMemory 20 1 = 0x30 := by decide
  obtain ⟨dots, hEnd, -, hFrame⟩ :=
    frame_eq_background_map mottledMemory hBeam hBackground hSprites hInside
  exact ⟨hBeam, hBackground, hSprites, hInside, hHue, dots, hEnd,
    (hFrame 20 1 (by decide) (by decide)).trans hColour⟩

end Nes.Ppu
