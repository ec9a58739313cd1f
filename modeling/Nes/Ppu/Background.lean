import Nes.Ppu.Pixel
import Nes.Ppu.Registers
import Nes.Ppu.Scroll
import Nes.Ppu.ShiftRegister

/-! The background: tiles are fetched one after the other, eight dots each, and drawn from shift
registers two tiles later. -/

namespace Nes.Ppu

/-- What the unit holds of the background: the bytes of the tile that is being fetched, and the
tiles that are being drawn. -/
structure Background where
  tile : UInt8 := 0
  /-- The attribute byte, shifted so that its lowest two bits choose the palette. -/
  attributes : UInt8 := 0
  lowPlane : UInt8 := 0
  highPlane : UInt8 := 0
  /-- The pixel values of the tile that is being drawn and of the next one. -/
  pattern : ShiftRegister UInt16 := .empty
  /-- The palettes of the next eight pixels. -/
  palette : ShiftRegister UInt8 := .empty
  /-- The palette of the next tile, which enters the palette register pixel by pixel. -/
  nextPalette : UInt8 := 0
  deriving DecidableEq, Repr

namespace Background

/-- A fetched tile enters the shift registers at these dots, the first one after each tile. -/
abbrev Reloads (dot : Nat) : Prop :=
  dot % 8 = 1 ∧ ((9 ≤ dot ∧ dot ≤ 257) ∨ 321 ≤ dot)

/-- Tiles are fetched at these dots: the rest of this line, and two tiles for the next one. -/
abbrev Fetches (dot : Nat) : Prop :=
  (1 ≤ dot ∧ dot ≤ 256) ∨ (321 ≤ dot ∧ dot ≤ 336)

/-- Puts the tile that was fetched into the shift registers, behind the one that is being drawn. -/
def reload (background : Background) (beam : Beam) : Background :=
  if beam.OnFetchLine ∧ Reloads beam.dot.val then
    { background with
      pattern := background.pattern.reload background.highPlane background.lowPlane
      nextPalette := background.attributes &&& 0x03 }
  else
    background

/-- The pixel that leaves the shift registers. The fine scroll picks one of the first eight. -/
def pixel (background : Background) (fineX : Fin 8) : Pixel where
  palette := background.palette.pixel fineX
  value := background.pattern.pixel fineX

/-- The address of the row of the tile that is being fetched. -/
def patternAddress (background : Background) (control : Control) (scroll : Scroll) : UInt16 :=
  tileRowAddress control.backgroundTable background.tile.toNat scroll.current.fineY.val

/-- Fetches one byte every other dot: the tile, its attributes and its two bit planes. The low plane
of the row is at `address` and the high plane eight bytes after it. -/
def fetch (background : Background) (beam : Beam) (scroll : Scroll) (memory : UInt16 → UInt8)
    (address : UInt16) : Background :=
  if beam.OnFetchLine ∧ Fetches beam.dot.val then
    match beam.dot.val % 8 with
    | 1 => { background with tile := memory scroll.current.tileAddress }
    | 3 =>
      let attributes := memory scroll.current.attributeAddress
      { background with attributes := attributes >>> scroll.current.attributeShift }
    | 5 => { background with lowPlane := memory address }
    | 7 => { background with highPlane := memory (address + 8) }
    | _ => background
  else
    background

def shift (background : Background) (beam : Beam) : Background :=
  if beam.OnFetchLine ∧ 1 ≤ beam.dot.val ∧ beam.dot.val ≤ 336 then
    { background with
      pattern := background.pattern.shift 0
      palette := background.palette.shift background.nextPalette }
  else
    background

end Background

end Nes.Ppu
