import Nes.Ppu.Pixel
import Nes.Ppu.ShiftRegister
import Nes.Ppu.SpriteEvaluation

/-! The eight units that draw the sprites of a line. Each counts down to the column of its sprite
and then shifts out a row of pixels. -/

namespace Nes.Ppu

/-- The bits of a byte in the opposite order. -/
def reverseBits (byte : UInt8) : UInt8 :=
  let byte := (byte >>> 4) ||| (byte <<< 4)
  let byte := ((byte &&& 0xcc) >>> 2) ||| ((byte &&& 0x33) <<< 2)
  ((byte &&& 0xaa) >>> 1) ||| ((byte &&& 0x55) <<< 1)

structure SpriteUnit where
  pattern : ShiftRegister UInt8 := .empty
  attributes : SpriteAttributes := ⟨0⟩
  /-- The number of columns up to the sprite. -/
  counter : UInt8 := 0xff
  deriving DecidableEq, Repr

namespace SpriteUnit

/-- The value of the pixel that the unit shows at the moment, if it has reached its sprite. -/
def value (unit : SpriteUnit) : UInt8 :=
  if unit.counter = 0 then unit.pattern.pixel ⟨0, by decide⟩ else 0

def isVisible (unit : SpriteUnit) : Bool :=
  unit.value != 0

/-- The unit one column further. -/
def shift (unit : SpriteUnit) : SpriteUnit :=
  if unit.counter = 0 then { unit with pattern := unit.pattern.shift 0 }
  else { unit with counter := unit.counter - 1 }

/-- A unit that is set up for a sprite, with the two bit planes of its row. The planes of an unused
place are never mirrored. -/
def load (sprite : Sprite) (used : Bool) (low high : UInt8) : SpriteUnit :=
  let flips := used && sprite.attributes.flipsHorizontally
  { pattern :=
      { upper := if flips then reverseBits high else high
        lower := if flips then reverseBits low else low }
    attributes := sprite.attributes
    counter := sprite.x }

end SpriteUnit

/-- All units, and the bytes that are being fetched for one of them. -/
structure SpriteUnits where
  units : Vector SpriteUnit 8 := Vector.replicate 8 {}
  /-- Whether the first unit draws the first sprite in memory. -/
  hasZero : Bool := false
  lowPlane : UInt8 := 0
  highPlane : UInt8 := 0

namespace SpriteUnits

/-- The units are set up for the next line at these dots, eight dots for each of them. -/
abbrev Fetches (dot : Nat) : Prop :=
  257 ≤ dot ∧ dot ≤ 320

/-- The unit that is being set up at a dot. -/
def slot (dot : Nat) : Fin 8 :=
  ⟨(dot - 257) / 8 % 8, by omega⟩

/-- The pixel of the first unit that shows anything. -/
def pixel (sprites : SpriteUnits) : SpritePixel :=
  match sprites.units.find? SpriteUnit.isVisible with
  | some unit =>
    { palette := unit.attributes.palette
      value := unit.value
      inFront := unit.attributes.inFront
      ofZero := sprites.hasZero && sprites.units[0].isVisible }
  | none => {}

/-- Sets up the units for the next line, one after the other. A used unit reads the low plane at
`address` and the high plane eight bytes after it; an unused one gets a row without pixels. -/
def fetch (sprites : SpriteUnits) (beam : Beam) (found : LineSprites) (memory : UInt16 → UInt8)
    (address : UInt16) : SpriteUnits :=
  let dot := beam.dot.val
  if beam.OnFetchLine ∧ Fetches dot then
    let used := decide ((slot dot).val < found.count)
    match dot % 8 with
    | 5 => { sprites with lowPlane := if used then memory address else 0 }
    | 7 => { sprites with highPlane := if used then memory (address + 8) else 0 }
    | 0 =>
      let unit := SpriteUnit.load found.places[slot dot] used sprites.lowPlane sprites.highPlane
      { sprites with units := sprites.units.set (slot dot) unit }
    | _ => if dot = 257 then { sprites with hasZero := found.hasZero } else sprites
  else
    sprites

def shift (sprites : SpriteUnits) (beam : Beam) : SpriteUnits :=
  if beam.OnFetchLine ∧ 1 ≤ beam.dot.val ∧ beam.dot.val ≤ 256 then
    { sprites with units := sprites.units.map SpriteUnit.shift }
  else
    sprites

end SpriteUnits

end Nes.Ppu
