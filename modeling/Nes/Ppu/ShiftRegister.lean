/-! Shift registers for pictures of two bit planes. A register holds the pixels of one tile, or of
two tiles in a row, and moves them out at the left end. -/

namespace Nes.Ppu

/-- A word that can serve as one plane of a shift register. -/
class Plane (ω : Type) where
  /-- A plane without pixels. -/
  empty : ω
  /-- Moves all bits one place up and takes in the lowest bit of a byte. -/
  shiftIn : ω → UInt8 → ω
  /-- Replaces the lowest eight bits. -/
  reload : ω → UInt8 → ω
  /-- The highest eight bits. -/
  front : ω → UInt8

instance : Plane UInt8 where
  empty := 0
  shiftIn plane bit := (plane <<< 1) ||| (bit &&& 1)
  reload _ byte := byte
  front plane := plane

instance : Plane UInt16 where
  empty := 0
  shiftIn plane bit := (plane <<< 1) ||| (bit &&& 1).toUInt16
  reload plane byte := (plane &&& 0xff00) ||| byte.toUInt16
  front plane := (plane >>> 8).toUInt8

/-- Two planes that move together. The upper plane holds the high bit of each pixel. -/
structure ShiftRegister (ω : Type) where
  upper : ω
  lower : ω
  deriving DecidableEq, Repr

namespace ShiftRegister

variable {ω : Type} [Plane ω]

def empty : ShiftRegister ω :=
  ⟨Plane.empty, Plane.empty⟩

/-- Replaces the eight pixels at the right end. -/
def reload (register : ShiftRegister ω) (upper lower : UInt8) : ShiftRegister ω :=
  ⟨Plane.reload register.upper upper, Plane.reload register.lower lower⟩

/-- Moves all pixels one place to the left and takes in a pixel, given by the lowest two bits of a
byte, at the right end. -/
def shift (register : ShiftRegister ω) (pixel : UInt8) : ShiftRegister ω :=
  ⟨Plane.shiftIn register.upper (pixel >>> 1), Plane.shiftIn register.lower pixel⟩

/-- The bit of a byte in the given column, counted from the left. -/
def bitAt (byte : UInt8) (column : Fin 8) : UInt8 :=
  (byte >>> UInt8.ofNat (7 - column.val)) &&& 1

/-- The pixel in one of the first eight columns, as a number below four. -/
def pixel (register : ShiftRegister ω) (column : Fin 8) : UInt8 :=
  (bitAt (Plane.front register.upper) column <<< 1) ||| bitAt (Plane.front register.lower) column

end ShiftRegister

end Nes.Ppu
