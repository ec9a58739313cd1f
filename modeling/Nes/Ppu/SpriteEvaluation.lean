import Nes.Ppu.Beam
import Nes.Ppu.Sprite

/-! The choice of the sprites that are shown on the next line: the first eight in range. -/

namespace Nes.Ppu

/-- The sprites found for the next line. Places from `count` on keep what they held before. -/
structure LineSprites where
  places : Vector Sprite 8 := Vector.replicate 8 Sprite.unused
  count : Nat := 0
  /-- Whether the first sprite in memory was found. -/
  hasZero : Bool := false

namespace LineSprites

def cleared : LineSprites :=
  {}

/-- Puts a sprite into the next free place, if there is one. -/
def push (found : LineSprites) (sprite : Sprite) : LineSprites :=
  if free : found.count < 8 then
    { found with places := found.places.set found.count sprite, count := found.count + 1 }
  else
    found

/-- Goes through sprites in order and collects those in range until all places are taken. Gives the
sprites that it did not look at any more. -/
def collect (height line : Nat) (found : LineSprites) : List Sprite → LineSprites × List Sprite
  | [] => (found, [])
  | sprite :: rest =>
    if found.count < 8 then
      if sprite.InRange height line then collect height line (found.push sprite) rest
      else collect height line found rest
    else
      (found, sprite :: rest)

/-- Evaluates all sprites for the line after this one. Gives the sprites found, and whether there
are more in range than places. -/
def evaluate (previous : LineSprites) (oam : Oam) (height line : Nat) : LineSprites × Bool :=
  let (found, rest) := collect height line { previous with count := 0 } oam.sprites
  let zero := decide ((oam.sprite 0).InRange height line)
  ({ found with hasZero := zero }, rest.any fun sprite => decide (sprite.InRange height line))

/-- The sprites for the next line after a dot of a rendering unit, and whether this dot found too
many. All places are cleared at the start of a line, and a line that is shown is evaluated at dot
65. -/
def tick (found : LineSprites) (beam : Beam) (control : Control) (oam : Oam) : LineSprites × Bool :=
  if beam.OnFetchLine ∧ beam.dot.val = 1 then (cleared, false)
  else if beam.OnVisibleLine ∧ beam.dot.val = 65 then
    found.evaluate oam control.spriteHeight beam.line.val
  else (found, false)

end LineSprites

end Nes.Ppu
