import Nes.Ppu.Registers

/-! The palette memory inside the picture unit: 32 colours of six bits. -/

namespace Nes.Ppu

/-- The colours of the four background palettes and the four sprite palettes. -/
structure Palette where
  colours : Vector UInt8 32 := Vector.replicate 32 0

namespace Palette

/-- The cell behind an address. The first colour of each sprite palette is the cell of the first
colour of the background palette across from it. -/
def index (address : UInt16) : Fin 32 :=
  let cell := address.toNat % 32
  if cell % 4 = 0 then ⟨cell % 16, by omega⟩ else ⟨cell, by omega⟩

def colour (palette : Palette) (address : UInt16) : UInt8 :=
  palette.colours[index address]

/-- The colour at an address as far as the mask lets it through. -/
def read (palette : Palette) (mask : Mask) (address : UInt16) : UInt8 :=
  palette.colour address &&& mask.colourBits

/-- Stores the lowest six bits of a byte as a colour. -/
def write (palette : Palette) (address : UInt16) (value : UInt8) : Palette :=
  { palette with colours := palette.colours.set (index address) (value &&& 0x3f) }

/-- A stored colour is read back at every address of its cell, and no other cell changes. -/
theorem colour_write (palette : Palette) (stored address : UInt16) (value : UInt8) :
    (palette.write stored value).colour address =
      if index stored = index address then value &&& 0x3f else palette.colour address := by
  simp only [write, colour, Fin.getElem_fin, Vector.getElem_set, Fin.ext_iff]

end Palette

end Nes.Ppu
