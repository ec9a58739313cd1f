import Nes.Ppu.Basic

/-! What the picture unit does in one dot. A rendering unit draws a pixel, fetches, moves its scroll
position, looks for the sprites of the next line and shifts; each part of the state has its own
rule, and all rules read the state at the start of the dot. -/

namespace Nes.Ppu

/-- The background pixel and the sprite pixel that meet under the beam. -/
structure Layers where
  background : Pixel := .transparent
  sprite : SpritePixel := {}

namespace Layers

/-- The pixels that a mask lets through in a column. -/
def masked (mask : Mask) (column : Nat) (background : Pixel) (sprite : SpritePixel) : Layers where
  background := if mask.backgroundAt column then background else .transparent
  sprite := if mask.spritesAt column then sprite else {}

/-- The palette address of the colour that is shown. -/
def address (layers : Layers) : UInt16 :=
  layers.background.compose layers.sprite

/-- The first sprite meets the background where both are visible, except in the last column. -/
def hitsZero (layers : Layers) (column : Nat) : Bool :=
  layers.sprite.ofZero && layers.background.isVisible && column != 255

end Layers

/-- The pattern address after a dot. It is set before the low plane of a row is fetched and serves
for the high plane as well. -/
def nextPatternAddress (old : UInt16) (beam : Beam) (control : Control) (scroll : Scroll)
    (background : Background) (found : LineSprites) : UInt16 :=
  let dot := beam.dot.val
  if beam.OnFetchLine ∧ dot % 8 = 5 then
    if Background.Fetches dot then background.patternAddress control scroll
    else if SpriteUnits.Fetches dot ∧ (SpriteUnits.slot dot).val < found.count then
      (found.places.get (SpriteUnits.slot dot)).patternAddress control beam.line.val
    else old
  else old

/-- A dot of a unit that renders. -/
def render (ppu : Ppu) (memory : UInt16 → UInt8) : Ppu :=
  let beam := ppu.beam
  let background := ppu.background.reload beam
  let layers :=
    if beam.OnPixel then
      Layers.masked ppu.mask beam.column (background.pixel ppu.scroll.fineX) ppu.sprites.pixel
    else {}
  -- The choice made at this dot is for later dots: the fetches below use the sprites found before.
  let found := ppu.lineSprites.tick beam ppu.control ppu.oam
  let patternAddress := nextPatternAddress ppu.patternAddress beam ppu.control ppu.scroll
    background ppu.lineSprites
  { ppu with
    status.spriteZeroHit := ppu.status.spriteZeroHit || layers.hitsZero beam.column
    status.spriteOverflow := ppu.status.spriteOverflow || found.2
    scroll := ppu.scroll.tick beam
    oamAddress :=
      if beam.OnFetchLine ∧ SpriteUnits.Fetches beam.dot.val then 0 else ppu.oamAddress
    lineSprites := found.1
    sprites := (ppu.sprites.fetch beam ppu.lineSprites memory patternAddress).shift beam
    background := (background.fetch beam ppu.scroll memory patternAddress).shift beam
    patternAddress
    screen :=
      if onPixel : beam.OnPixel then
        ppu.screen.draw beam onPixel (ppu.palette.read ppu.mask layers.address)
      else ppu.screen }

/-- A dot of a unit that does not render shows the first colour. -/
def drawBackdrop (ppu : Ppu) : Ppu :=
  if onPixel : ppu.beam.OnPixel then
    { ppu with screen := ppu.screen.draw ppu.beam onPixel (ppu.palette.read ppu.mask 0) }
  else
    ppu

/-- The flags after a dot. Vertical blanking starts on line 241, and the line before a picture
clears all flags. -/
def Status.tick (status : Status) (beam : Beam) : Status :=
  if beam.At Beam.verticalBlankLine 1 then { status with verticalBlank := true }
  else if beam.At Beam.preRenderLine 1 then {}
  else status

/-- The end of every dot: vertical blanking, its interrupt, and the step to the next dot. At the end
of a picture it is shown. -/
def finishDot (ppu : Ppu) : Ppu :=
  let beam := ppu.beam
  let rendering := ppu.mask.rendering
  { ppu with
    status := ppu.status.tick beam
    nmi := ppu.nmi.tick beam ppu.control.nmiEnabled
    screen := if beam.EndsFrame rendering then ppu.screen.swap else ppu.screen
    beam := beam.next rendering }

def tick (ppu : Ppu) (memory : UInt16 → UInt8) : Ppu :=
  (if ppu.mask.rendering then ppu.render memory else ppu.drawBackdrop).finishDot

def run (ppu : Ppu) (memory : UInt16 → UInt8) : (dots : Nat) → Ppu
  | 0 => ppu
  | dots + 1 => (ppu.tick memory).run memory dots

section Tick

variable (ppu : Ppu) (memory : UInt16 → UInt8)

/-- A dot moves the beam on, whatever else happens in it. -/
@[simp] theorem beam_tick : (ppu.tick memory).beam = ppu.beam.next ppu.mask.rendering := by
  simp only [tick, finishDot, render, drawBackdrop]
  split
  · rfl
  · split <;> rfl

/-- Only a rendering unit moves its scroll position by itself. -/
@[simp] theorem scroll_tick : (ppu.tick memory).scroll =
    if ppu.mask.rendering then ppu.scroll.tick ppu.beam else ppu.scroll := by
  simp only [tick, finishDot, render, drawBackdrop]
  split
  · rfl
  · split <;> rfl

@[simp] theorem control_tick : (ppu.tick memory).control = ppu.control := by
  simp only [tick, finishDot, render, drawBackdrop]
  split
  · rfl
  · split <;> rfl

@[simp] theorem mask_tick : (ppu.tick memory).mask = ppu.mask := by
  simp only [tick, finishDot, render, drawBackdrop]
  split
  · rfl
  · split <;> rfl

@[simp] theorem palette_tick : (ppu.tick memory).palette = ppu.palette := by
  simp only [tick, finishDot, render, drawBackdrop]
  split
  · rfl
  · split <;> rfl

@[simp] theorem oam_tick : (ppu.tick memory).oam = ppu.oam := by
  simp only [tick, finishDot, render, drawBackdrop]
  split
  · rfl
  · split <;> rfl

/-- A dot may raise the interrupt, at the start of vertical blanking. -/
@[simp] theorem nmi_tick :
    (ppu.tick memory).nmi = ppu.nmi.tick ppu.beam ppu.control.nmiEnabled := by
  simp only [tick, finishDot, render, drawBackdrop]
  split
  · rfl
  · split <;> rfl

end Tick

@[simp] theorem run_zero (ppu : Ppu) (memory : UInt16 → UInt8) : ppu.run memory 0 = ppu := rfl

@[simp] theorem run_succ (ppu : Ppu) (memory : UInt16 → UInt8) (dots : Nat) :
    ppu.run memory (dots + 1) = (ppu.tick memory).run memory dots := rfl

/-- Dots can be counted in two portions. -/
theorem run_add (ppu : Ppu) (memory : UInt16 → UInt8) (first second : Nat) :
    ppu.run memory (first + second) = (ppu.run memory first).run memory second := by
  induction first generalizing ppu with
  | zero => rw [Nat.zero_add, run_zero]
  | succ first ih => rw [Nat.succ_add, run_succ, run_succ, ih]

end Nes.Ppu
