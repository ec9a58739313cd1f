import Nes.Cpu.Machine

/-! Operands: the address that an instruction works on, as its addressing mode computes it. -/

namespace Nes

namespace Cpu

/-- Where the operand of an instruction is. -/
structure Operand where
  /-- The address of the operand. It is the byte after the opcode for an immediate operand and the
  target for a branch. -/
  address : UInt16 := 0
  /-- Whether the address is on another page than the one it was computed from. -/
  pageCrossed : Bool := false
  deriving DecidableEq, Repr

/-- The operand at a distance from a base address. -/
def Operand.indexed (base distance : UInt16) : Operand :=
  { address := base + distance, pageCrossed := !samePage base (base + distance) }

end Cpu

open Cpu

namespace Machine

variable {β : Type} [Board β]

/-- An operand in page zero, at an indexed place. The index never leaves the page. -/
def fetchZeroPage (machine : Machine β) (index : UInt8) : Operand × Machine β :=
  let (base, machine) := machine.fetchByte
  ({ address := (base + index).toUInt16 }, machine)

/-- An operand at an indexed distance from an address. -/
def fetchAbsolute (machine : Machine β) (index : UInt8) : Operand × Machine β :=
  let (base, machine) := machine.fetchWord
  (.indexed base index.toUInt16, machine)

/-- Reads the bytes after the opcode, moves past them and gives the operand. -/
def fetchOperand (machine : Machine β) : AddressingMode → Operand × Machine β
  | .implied | .accumulator => ({}, machine)
  | .immediate => ({ address := machine.cpu.pc }, machine.goto (machine.cpu.pc + 1))
  | .zeroPage => machine.fetchZeroPage 0
  | .zeroPageX => machine.fetchZeroPage machine.cpu.x
  | .zeroPageY => machine.fetchZeroPage machine.cpu.y
  | .absolute => machine.fetchAbsolute 0
  | .absoluteX => machine.fetchAbsolute machine.cpu.x
  | .absoluteY => machine.fetchAbsolute machine.cpu.y
  | .indirect =>
    let (pointer, machine) := machine.fetchWord
    let (address, machine) := machine.readWordInPage pointer
    ({ address }, machine)
  | .indirectX =>
    let (base, machine) := machine.fetchByte
    let (address, machine) := machine.readWordInPage (base + machine.cpu.x).toUInt16
    ({ address }, machine)
  | .indirectY =>
    let (pointer, machine) := machine.fetchByte
    let (base, machine) := machine.readWordInPage pointer.toUInt16
    (.indexed base machine.cpu.y.toUInt16, machine)
  | .relative =>
    let (distance, machine) := machine.fetchByte
    (.indexed machine.cpu.pc (signedOffset distance), machine)

end Machine

end Nes
