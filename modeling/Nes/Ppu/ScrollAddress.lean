/-! The fifteen bit address that doubles as a scroll position: a tile inside four nametables and a
row of pixels inside the tile. -/

namespace Nes.Ppu

/-- The first row or column of pixels inside a tile. -/
def firstPixel : Fin 8 := 0

/-- A scroll position. Written as a word it has the fields

    yyy NN YYYYY XXXXX

with the row inside the tile, the nametable, the tile row and the tile column. The nametable is
split into its vertical and its horizontal half. -/
structure ScrollAddress where
  coarseX : Fin 32 := 0
  coarseY : Fin 32 := 0
  /-- Whether the position is in one of the two right nametables. -/
  tableX : Bool := false
  /-- Whether the position is in one of the two lower nametables. -/
  tableY : Bool := false
  fineY : Fin 8 := firstPixel
  deriving DecidableEq, Repr

namespace ScrollAddress

/-- The upper left corner of the four nametables. -/
def origin : ScrollAddress := {}

/-- The number of the nametable, from 0 at the upper left to 3 at the lower right. -/
def nametable (address : ScrollAddress) : Nat :=
  2 * address.tableY.toNat + address.tableX.toNat

/-- Chooses the nametable with the number in the lowest two bits. -/
def withNametable (address : ScrollAddress) (number : Nat) : ScrollAddress :=
  { address with tableX := number.testBit 0, tableY := number.testBit 1 }

/-- The position as a number below `$8000`. -/
def toNat (address : ScrollAddress) : Nat :=
  0x1000 * address.fineY.val + 0x400 * address.nametable + 0x20 * address.coarseY.val +
    address.coarseX.val

def toWord (address : ScrollAddress) : UInt16 :=
  UInt16.ofNat address.toNat

/-- The position whose fields are the bits of a number. Bits above the fifteenth are dropped. -/
def ofNat (n : Nat) : ScrollAddress where
  coarseX := ⟨n % 32, by omega⟩
  coarseY := ⟨n / 32 % 32, by omega⟩
  tableX := n.testBit 10
  tableY := n.testBit 11
  fineY := ⟨n / 4096 % 8, by omega⟩

/-- Moves the position by a number of steps, as a fifteen bit number. -/
def add (address : ScrollAddress) (steps : UInt16) : ScrollAddress :=
  ofNat (address.toNat + steps.toNat)

/-- The address on the bus, which has one line less than the position has bits. -/
def busAddress (address : ScrollAddress) : UInt16 :=
  UInt16.ofNat (address.toNat % 0x4000)

/-- Where the nametable holds the tile at this position. -/
def tileAddress (address : ScrollAddress) : UInt16 :=
  UInt16.ofNat (0x2000 + 0x400 * address.nametable + 0x20 * address.coarseY.val +
    address.coarseX.val)

/-- Where the nametable holds the attributes of the block of four by four tiles around this
position. -/
def attributeAddress (address : ScrollAddress) : UInt16 :=
  UInt16.ofNat (0x23c0 + 0x400 * address.nametable + 8 * (address.coarseY.val / 4) +
    address.coarseX.val / 4)

/-- How far an attribute byte is shifted right to bring the two bits of this position to the lowest
place. Each quarter of the block has its own two bits. -/
def attributeShift (address : ScrollAddress) : UInt8 :=
  UInt8.ofNat (4 * (address.coarseY.val / 2 % 2) + 2 * (address.coarseX.val / 2 % 2))

/-- One tile to the right. Behind the last column follows the nametable beside this one. -/
def nextColumn (address : ScrollAddress) : ScrollAddress :=
  if address.coarseX = 31 then { address with coarseX := 0, tableX := !address.tableX }
  else { address with coarseX := address.coarseX + 1 }

/-- One row of pixels down. Behind the thirtieth row of tiles follows the nametable below. The two
rows after it hold attributes; counting through them returns to the top of the same nametable. -/
def nextRow (address : ScrollAddress) : ScrollAddress :=
  if address.fineY = 7 then
    if address.coarseY = 29 then
      { address with fineY := 0, coarseY := 0, tableY := !address.tableY }
    else
      { address with fineY := 0, coarseY := address.coarseY + 1 }
  else
    { address with fineY := address.fineY + 1 }

def withHorizontal (address other : ScrollAddress) : ScrollAddress :=
  { address with coarseX := other.coarseX, tableX := other.tableX }

def withVertical (address other : ScrollAddress) : ScrollAddress :=
  { address with coarseY := other.coarseY, tableY := other.tableY, fineY := other.fineY }

theorem nametable_lt (address : ScrollAddress) : address.nametable < 4 := by
  have hX := Bool.toNat_lt address.tableX
  have hY := Bool.toNat_lt address.tableY
  simp only [nametable]
  omega

/-- A scroll position is a number of fifteen bits. -/
theorem toNat_lt (address : ScrollAddress) : address.toNat < 0x8000 := by
  have hTable := address.nametable_lt
  simp only [toNat]
  omega

/-- The fields of a position are exactly the bits of its number. -/
@[simp] theorem ofNat_toNat (address : ScrollAddress) : ofNat address.toNat = address := by
  obtain ⟨coarseX, coarseY, tableX, tableY, fineY⟩ := address
  simp only [ofNat, toNat, nametable, ScrollAddress.mk.injEq]
  cases tableX <;> cases tableY <;>
    simp [Fin.ext_iff, Nat.testBit_eq_decide_div_mod_eq] <;> omega

/-- Every number of fifteen bits is that of a scroll position. -/
@[simp] theorem toNat_ofNat (n : Nat) : (ofNat n).toNat = n % 0x8000 := by
  have hBit (b : Nat) : (n.testBit b).toNat = n / 2 ^ b % 2 := by
    rcases Nat.mod_two_eq_zero_or_one (n / 2 ^ b) with h | h <;>
      simp [Nat.testBit_eq_decide_div_mod_eq, h]
  simp only [ofNat, toNat, nametable, hBit]
  omega

/-- An increment wraps around behind the last scroll position. -/
@[simp] theorem toNat_add (address : ScrollAddress) (steps : UInt16) :
    (address.add steps).toNat = (address.toNat + steps.toNat) % 0x8000 := by
  simp [add]

end ScrollAddress

end Nes.Ppu
