import Nes.Ppu.Beam
import Nes.Ppu.ScrollAddress

/-! The scroll registers: the position that is drawn, the position that a program prepares, and how
writes and the beam move them. -/

namespace Nes.Ppu

structure Scroll where
  /-- The position that is fetched now, which is also the address of the data register. -/
  current : ScrollAddress := .origin
  /-- The position of the upper left corner that a program prepares. -/
  temporary : ScrollAddress := .origin
  /-- The column of pixels inside a tile at which each line starts. -/
  fineX : Fin 8 := firstPixel
  /-- Whether the next write to the scroll or address register is the first of a pair. -/
  firstWrite : Bool := true
  deriving DecidableEq, Repr

namespace Scroll

/-- A write to the control register chooses the nametable. -/
def writeControl (scroll : Scroll) (value : UInt8) : Scroll :=
  { scroll with temporary := scroll.temporary.withNametable value.toNat }

/-- The first write to the scroll register gives the column, the second one the row. -/
def writeScroll (scroll : Scroll) (value : UInt8) : Scroll :=
  let coarse : Fin 32 := ⟨value.toNat / 8, by have := value.toNat_lt; omega⟩
  let fine : Fin 8 := ⟨value.toNat % 8, by omega⟩
  if scroll.firstWrite then
    { scroll with temporary.coarseX := coarse, fineX := fine, firstWrite := false }
  else
    { scroll with temporary.coarseY := coarse, temporary.fineY := fine, firstWrite := true }

/-- The position whose lower eight bits are kept and whose upper bits are the lowest six bits of a
byte. -/
def withHighByte (address : ScrollAddress) (value : UInt8) : ScrollAddress :=
  { address.withNametable (value.toNat / 4) with
    fineY := ⟨value.toNat / 16 % 4, by omega⟩
    coarseY := ⟨8 * (value.toNat % 4) + address.coarseY.val % 8, by omega⟩ }

/-- The position whose upper bits are kept and whose lower eight bits are a byte. -/
def withLowByte (address : ScrollAddress) (value : UInt8) : ScrollAddress :=
  { address with
    coarseX := ⟨value.toNat % 32, by omega⟩
    coarseY := ⟨8 * (address.coarseY.val / 8) + value.toNat / 32, by
      have := value.toNat_lt; omega⟩ }

/-- The first write to the address register gives the upper byte, the second one the lower byte and
makes the prepared position the current one. -/
def writeAddress (scroll : Scroll) (value : UInt8) : Scroll :=
  if scroll.firstWrite then
    { scroll with temporary := withHighByte scroll.temporary value, firstWrite := false }
  else
    let address := withLowByte scroll.temporary value
    { scroll with temporary := address, current := address, firstWrite := true }

/-- Reading the status register makes the next write the first of a pair. -/
def resetToggle (scroll : Scroll) : Scroll :=
  { scroll with firstWrite := true }

/-- An access through the data register moves the current position. -/
def increment (scroll : Scroll) (steps : UInt16) : Scroll :=
  { scroll with current := scroll.current.add steps }

/-- A rendering unit moves on by a tile at these dots: after every tile that is drawn, and after the
two tiles that are fetched in advance for the next line. -/
abbrev MovesColumn (dot : Nat) : Prop :=
  dot % 8 = 0 ∧ ((1 ≤ dot ∧ dot ≤ 256) ∨ (321 ≤ dot ∧ dot ≤ 336))

/-- How the current position of a rendering unit moves at a dot: by a tile, by a row at the end of
the picture's width, back to the left edge after it, and back to the top before a picture. -/
def moved (scroll : Scroll) (beam : Beam) : ScrollAddress :=
  let dot := beam.dot.val
  let current := scroll.current
  let current := if MovesColumn dot then current.nextColumn else current
  let current :=
    if dot = 256 then current.nextRow
    else if dot = 257 then current.withHorizontal scroll.temporary
    else current
  if beam.OnPreRenderLine ∧ 280 ≤ dot ∧ dot ≤ 304 then current.withVertical scroll.temporary
  else current

/-- The scroll registers of a rendering unit after a dot. -/
def tick (scroll : Scroll) (beam : Beam) : Scroll :=
  if beam.OnFetchLine then { scroll with current := scroll.moved beam } else scroll

end Scroll

end Nes.Ppu
