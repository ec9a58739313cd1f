import Nes.Ppu.Beam

/-! The picture that is shown and the one that is being drawn. -/

namespace Nes.Ppu

/-- Two pictures of 240 rows of 256 colours each, row after row. -/
structure Screen where
  /-- The picture that is being drawn. -/
  back : Vector UInt8 61440 := Vector.replicate 61440 0
  /-- The last complete picture. -/
  front : Vector UInt8 61440 := Vector.replicate 61440 0

namespace Screen

/-- The place of the pixel under the beam in a picture. -/
def index (beam : Beam) (onPixel : beam.OnPixel) : Fin 61440 :=
  ⟨256 * beam.line.val + beam.column, by
    obtain ⟨hLine, hFirst, hLast⟩ := onPixel
    simp only [Beam.column]
    omega⟩

def draw (screen : Screen) (beam : Beam) (onPixel : beam.OnPixel) (colour : UInt8) : Screen :=
  { screen with back := screen.back.set (index beam onPixel) colour }

/-- Shows the picture that was drawn, and draws the next one over the picture shown before. -/
def swap (screen : Screen) : Screen :=
  { back := screen.front, front := screen.back }

end Screen

end Nes.Ppu
