/-! The control, mask and status registers of the picture unit. -/

namespace Nes.Ppu

/-- The byte last written to the control register. -/
structure Control where
  byte : UInt8 := 0
  deriving DecidableEq, Repr

namespace Control

/-- How far an access through the data register moves the video address: one column or one row. -/
def increment (control : Control) : UInt16 :=
  if control.byte &&& 0x04 != 0 then 32 else 1

/-- The pattern table of small sprites. -/
def spriteTable (control : Control) : UInt16 :=
  if control.byte &&& 0x08 != 0 then 0x1000 else 0x0000

def backgroundTable (control : Control) : UInt16 :=
  if control.byte &&& 0x10 != 0 then 0x1000 else 0x0000

def tallSprites (control : Control) : Bool :=
  control.byte &&& 0x20 != 0

def nmiEnabled (control : Control) : Bool :=
  control.byte &&& 0x80 != 0

def spriteHeight (control : Control) : Nat :=
  if control.tallSprites then 16 else 8

end Control

/-- The address of a row of a tile in one of the two pattern tables. A tile is sixteen bytes: eight
rows of the low bit plane, and eight of the high one after them. -/
def tileRowAddress (table : UInt16) (tile row : Nat) : UInt16 :=
  UInt16.ofNat (table.toNat + 16 * tile + row % 8)

/-- The byte last written to the mask register, which chooses what is shown. -/
structure Mask where
  byte : UInt8 := 0
  deriving DecidableEq, Repr

namespace Mask

/-- Whether colours lose their hue. -/
def greyscale (mask : Mask) : Bool :=
  mask.byte &&& 0x01 != 0

/-- Whether the background is shown in the leftmost eight columns. -/
def backgroundOnLeft (mask : Mask) : Bool :=
  mask.byte &&& 0x02 != 0

def spritesOnLeft (mask : Mask) : Bool :=
  mask.byte &&& 0x04 != 0

def showsBackground (mask : Mask) : Bool :=
  mask.byte &&& 0x08 != 0

def showsSprites (mask : Mask) : Bool :=
  mask.byte &&& 0x10 != 0

/-- The unit renders as long as it shows anything. -/
def rendering (mask : Mask) : Bool :=
  mask.showsBackground || mask.showsSprites

/-- The unit renders if one of two bits of the mask is set. -/
theorem rendering_iff (mask : Mask) : mask.rendering = true ↔ mask.byte &&& 0x18 ≠ 0 := by
  have hOr (byte first second : UInt8) :
      byte &&& (first ||| second) = (byte &&& first) ||| (byte &&& second) :=
    UInt8.toBitVec_inj.mp BitVec.and_or_distrib_left
  have hBits : mask.byte &&& 0x18 = (mask.byte &&& 0x08) ||| (mask.byte &&& 0x10) :=
    hOr _ 0x08 0x10
  rw [rendering, showsBackground, showsSprites, hBits, Bool.or_eq_true, bne_iff_ne, bne_iff_ne,
    ne_eq (_ ||| _), UInt8.or_eq_zero_iff]
  exact (Decidable.not_and_iff_not_or_not).symm

def backgroundAt (mask : Mask) (column : Nat) : Bool :=
  mask.showsBackground && (decide (8 ≤ column) || mask.backgroundOnLeft)

def spritesAt (mask : Mask) (column : Nat) : Bool :=
  mask.showsSprites && (decide (8 ≤ column) || mask.spritesOnLeft)

/-- The bits of a colour that reach the screen. -/
def colourBits (mask : Mask) : UInt8 :=
  if mask.greyscale then 0x30 else 0x3f

end Mask

/-- The flags that a program reads from the status register. -/
structure Status where
  spriteOverflow : Bool := false
  spriteZeroHit : Bool := false
  verticalBlank : Bool := false
  deriving DecidableEq, Repr

namespace Status

/-- The flags in the upper three bits of a byte. -/
def toByte (status : Status) : UInt8 :=
  (if status.spriteOverflow then 0x20 else 0) ||| (if status.spriteZeroHit then 0x40 else 0) |||
    (if status.verticalBlank then 0x80 else 0)

end Status

end Nes.Ppu
