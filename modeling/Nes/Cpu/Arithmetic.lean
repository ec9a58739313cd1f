import Nes.Cpu.Flags

/-! The arithmetic of the processor on bytes. The processor has a decimal flag, but no decimal
arithmetic. -/

namespace Nes.Cpu

/-- The sum of two bytes and the carry. The carry is set if the sum exceeds a byte, and the overflow
flag if two numbers of one sign have a sum of the other sign. -/
def addWithCarry (flags : Flags) (a b : UInt8) : UInt8 × Flags :=
  let sum := a.toNat + b.toNat + flags.carry.toNat
  let result := UInt8.ofNat sum
  let overflow :=
    Flags.isNegative a == Flags.isNegative b && Flags.isNegative result != Flags.isNegative a
  (result, { flags with carry := decide (256 ≤ sum), overflow }.ofResult result)

/-- The difference of two bytes and the borrow, which is a clear carry. -/
def subtractWithBorrow (flags : Flags) (a b : UInt8) : UInt8 × Flags :=
  addWithCarry flags a (~~~b)

/-- The flags after comparing a register with a byte. The carry is set if the byte is not larger. -/
def compare (flags : Flags) (register value : UInt8) : Flags :=
  { flags.ofResult (register - value) with carry := decide (value ≤ register) }

/-- Shifts left. The highest bit goes to the carry. -/
def shiftLeft (flags : Flags) (value : UInt8) : UInt8 × Flags :=
  let result := UInt8.ofNat (2 * value.toNat)
  (result, { flags with carry := Flags.isNegative value }.ofResult result)

/-- Shifts right. The lowest bit goes to the carry. -/
def shiftRight (flags : Flags) (value : UInt8) : UInt8 × Flags :=
  let result := UInt8.ofNat (value.toNat / 2)
  (result, { flags with carry := decide (value.toNat % 2 = 1) }.ofResult result)

/-- Shifts left and moves the carry to the lowest bit. -/
def rotateLeft (flags : Flags) (value : UInt8) : UInt8 × Flags :=
  let result := UInt8.ofNat (2 * value.toNat + flags.carry.toNat)
  (result, { flags with carry := Flags.isNegative value }.ofResult result)

/-- Shifts right and moves the carry to the highest bit. -/
def rotateRight (flags : Flags) (value : UInt8) : UInt8 × Flags :=
  let result := UInt8.ofNat (0x80 * flags.carry.toNat + value.toNat / 2)
  (result, { flags with carry := decide (value.toNat % 2 = 1) }.ofResult result)

end Nes.Cpu
