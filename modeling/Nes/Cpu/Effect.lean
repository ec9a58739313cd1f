import Nes.Cpu.AddressingMode
import Nes.Cpu.Arithmetic
import Nes.Cpu.Basic

/-! What an instruction does once its operand is known. An effect says how the instruction uses
memory, and describes the rest as a function of registers and bytes. -/

namespace Nes.Cpu

/-- The kinds of instructions. -/
inductive Effect where
  /-- Reads the byte at the operand address. -/
  | load (apply : Registers → UInt8 → Registers)
  /-- Writes a byte to the operand address. -/
  | store (value : Registers → UInt8)
  /-- Reads the byte at the operand address and writes another one back. -/
  | modify (value : Registers → UInt8 → UInt8) (apply : Registers → UInt8 → Registers)
  /-- Touches no memory. -/
  | internal (apply : Registers → Registers)
  /-- Goes to the operand address if a condition holds. -/
  | branch (taken : Flags → Bool)
  /-- Goes to the operand address. -/
  | jump
  /-- Goes to the operand address and leaves the way back on the stack. -/
  | call
  /-- Goes back to where a call came from. -/
  | returnFromCall
  /-- Goes back to where an interrupt came from, with the flags from before it. -/
  | returnFromInterrupt
  /-- Behaves like an interrupt. -/
  | softwareInterrupt
  /-- Puts a byte on the stack. -/
  | push (value : Registers → UInt8)
  /-- Takes a byte from the stack. -/
  | pull (apply : Registers → UInt8 → Registers)

namespace Registers

def adc (registers : Registers) (value : UInt8) : Registers :=
  let (a, flags) := addWithCarry registers.flags registers.a value
  { registers with a, flags }

def sbc (registers : Registers) (value : UInt8) : Registers :=
  let (a, flags) := subtractWithBorrow registers.flags registers.a value
  { registers with a, flags }

def compareWith (registers : Registers) (register value : UInt8) : Registers :=
  { registers with flags := compare registers.flags register value }

/-- Tests a byte: the two highest bits become flags, and the zero flag tells whether it has a bit in
common with the accumulator. -/
def bitTest (registers : Registers) (value : UInt8) : Registers :=
  { registers with
    flags := { registers.flags with
      negative := Flags.isNegative value
      overflow := value &&& 0x40 != 0
      zero := registers.a &&& value == 0 } }

/-- Rotates the conjunction of accumulator and byte to the right. Carry and overflow come from the
upper bits of the result. -/
def rotateConjunction (registers : Registers) (value : UInt8) : Registers :=
  let result := (rotateRight registers.flags (registers.a &&& value)).1
  let registers := registers.withA result
  { registers with
    flags := { registers.flags with
      carry := result &&& 0x40 != 0
      overflow := ((result >>> 6) ^^^ (result >>> 5)) &&& 0x01 != 0 } }

/-- Subtracts a byte from the conjunction of accumulator and index register, like a comparison. -/
def subtractConjunction (registers : Registers) (value : UInt8) : Registers :=
  let conjunction := registers.a &&& registers.x
  { registers with
    x := conjunction - value
    flags := compare registers.flags conjunction value }

end Registers

namespace Effect

/-- A shift or rotation of a byte in memory. The flags follow the result, and `combine` says what
else happens to the registers. -/
def shiftMemory (operation : Flags → UInt8 → UInt8 × Flags)
    (combine : Registers → UInt8 → Registers := fun registers _ => registers) : Effect :=
  .modify (fun registers value => (operation registers.flags value).1) fun registers value =>
    let (result, flags) := operation registers.flags value
    combine { registers with flags } result

def shiftAccumulator (operation : Flags → UInt8 → UInt8 × Flags) : Effect :=
  .internal fun registers =>
    let (a, flags) := operation registers.flags registers.a
    { registers with a, flags }

/-- A shift or rotation of the accumulator or of a byte in memory, as the addressing mode says. -/
def shift (mode : AddressingMode) (operation : Flags → UInt8 → UInt8 × Flags) : Effect :=
  if mode = .accumulator then shiftAccumulator operation else shiftMemory operation

/-- A change of a byte in memory by a step up or down. -/
def stepMemory (step : UInt8)
    (combine : Registers → UInt8 → Registers :=
      fun registers value => { registers with flags := registers.flags.ofResult value }) :
    Effect :=
  .modify (fun _ value => value + step) fun registers value => combine registers (value + step)

/-- A change of the flags alone. -/
def setFlags (change : Flags → Flags) : Effect :=
  .internal fun registers => { registers with flags := change registers.flags }

end Effect

end Nes.Cpu
