/-! The processor status: six flags, and the byte that a program pushes and pulls. -/

namespace Nes.Cpu

structure Flags where
  carry : Bool := false
  zero : Bool := false
  interruptDisable : Bool := false
  decimal : Bool := false
  overflow : Bool := false
  negative : Bool := false
  deriving DecidableEq, Repr

namespace Flags

/-- The bit that tells a software interrupt and a push by the program from an interrupt. It exists
only in pushed bytes. -/
def breakBit : UInt8 := 0x10

/-- The flags whose bits are set in a byte. Bits 4 and 5 are not flags. -/
def ofByte (byte : UInt8) : Flags where
  carry := byte &&& 0x01 != 0
  zero := byte &&& 0x02 != 0
  interruptDisable := byte &&& 0x04 != 0
  decimal := byte &&& 0x08 != 0
  overflow := byte &&& 0x40 != 0
  negative := byte &&& 0x80 != 0

/-- The flags as a byte. Bit 5 is always set. -/
def toByte (flags : Flags) : UInt8 :=
  (if flags.carry then 0x01 else 0) ||| (if flags.zero then 0x02 else 0) |||
    (if flags.interruptDisable then 0x04 else 0) ||| (if flags.decimal then 0x08 else 0) |||
    0x20 ||| (if flags.overflow then 0x40 else 0) ||| (if flags.negative then 0x80 else 0)

/-- Whether a byte is negative as a signed number, which its highest bit tells. -/
def isNegative (value : UInt8) : Bool :=
  decide (0x80 ≤ value)

/-- The flags after an instruction with the given result. -/
def ofResult (flags : Flags) (value : UInt8) : Flags :=
  { flags with negative := isNegative value, zero := value == 0 }

@[simp] theorem carry_ofResult (flags : Flags) (value : UInt8) :
    (flags.ofResult value).carry = flags.carry := rfl

@[simp] theorem interruptDisable_ofResult (flags : Flags) (value : UInt8) :
    (flags.ofResult value).interruptDisable = flags.interruptDisable := rfl

@[simp] theorem decimal_ofResult (flags : Flags) (value : UInt8) :
    (flags.ofResult value).decimal = flags.decimal := rfl

@[simp] theorem overflow_ofResult (flags : Flags) (value : UInt8) :
    (flags.ofResult value).overflow = flags.overflow := rfl

/-- A byte that holds the flags gives them back. -/
@[simp] theorem ofByte_toByte (flags : Flags) : ofByte flags.toByte = flags := by
  obtain ⟨carry, zero, interruptDisable, decimal, overflow, negative⟩ := flags
  revert carry zero interruptDisable decimal overflow negative
  decide

/-- The mark of a software interrupt is not a flag, so reading the byte drops it. -/
@[simp] theorem ofByte_toByte_or_breakBit (flags : Flags) :
    ofByte (flags.toByte ||| breakBit) = flags := by
  obtain ⟨carry, zero, interruptDisable, decimal, overflow, negative⟩ := flags
  revert carry zero interruptDisable decimal overflow negative
  decide

end Flags

end Nes.Cpu
