import Nes.Ppu.Background
import Nes.Ppu.Nmi
import Nes.Ppu.Palette
import Nes.Ppu.Screen
import Nes.Ppu.SpriteUnits

/-! The state of the picture unit. -/

namespace Nes

open Ppu

/-- The picture unit. Its memory is outside, and every operation that reads it is given the memory
as a function from addresses to bytes. -/
structure Ppu where
  control : Control := {}
  mask : Mask := {}
  status : Status := {}
  scroll : Scroll := {}
  beam : Beam := .start
  nmi : Nmi := {}
  palette : Palette := {}
  oam : Oam := {}
  /-- Where the next access through the sprite data register goes. -/
  oamAddress : UInt8 := 0
  /-- The sprites that were found for the next line. -/
  lineSprites : LineSprites := {}
  sprites : SpriteUnits := {}
  background : Background := {}
  /-- The pattern address of the row of a tile or a sprite that is being fetched. -/
  patternAddress : UInt16 := 0
  /-- The last byte on the internal data bus. -/
  latch : UInt8 := 0
  /-- The byte that the next read through the data register gives. -/
  readBuffer : UInt8 := 0
  screen : Screen := {}

namespace Ppu

/-- Whether the interrupt output is active. -/
def nmiLine (ppu : Ppu) : Bool :=
  ppu.control.nmiEnabled && ppu.status.verticalBlank

/-- The last complete picture. -/
def frame (ppu : Ppu) : Vector UInt8 61440 :=
  ppu.screen.front

/-- Notices a raised interrupt. Gives whether there was one, once for each that was raised. -/
def pollNmi (ppu : Ppu) : Bool × Ppu :=
  (ppu.nmi.pending, { ppu with nmi.pending := false })

end Ppu

end Nes
