/-! Pixels of the background and of sprites before they become colours. -/

namespace Nes.Ppu

/-- A pixel of a tile: which of four palettes it uses and which of four values it has. Value zero is
transparent. -/
structure Pixel where
  palette : UInt8 := 0
  value : UInt8 := 0
  deriving DecidableEq, Repr

namespace Pixel

/-- A pixel that shows nothing. -/
def transparent : Pixel :=
  {}

def isVisible (pixel : Pixel) : Bool :=
  pixel.value != 0

/-- The place of the colour of a pixel among the four palettes of its kind. -/
def entry (pixel : Pixel) : UInt16 :=
  UInt16.ofNat (4 * (pixel.palette.toNat % 4) + pixel.value.toNat % 4)

end Pixel

structure SpritePixel extends Pixel where
  inFront : Bool := false
  /-- Whether the pixel belongs to the first sprite in memory. -/
  ofZero : Bool := false
  deriving DecidableEq, Repr

/-- The palette address of the colour that results from a background pixel and a sprite pixel at one
place. A visible sprite wins over a transparent background, and over a visible one if it is in
front. Where nothing is visible the first colour is shown. -/
def Pixel.compose (background : Pixel) (sprite : SpritePixel) : UInt16 :=
  if sprite.isVisible && (!background.isVisible || sprite.inFront) then 0x10 + sprite.entry
  else if background.isVisible then background.entry
  else 0

end Nes.Ppu
