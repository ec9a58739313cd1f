import Nes.Proofs.Cpu.Registers
import Nes.Proofs.Cpu.Timing

/-! What an instruction leaves alone. Each operation has flags and registers that it may change, and
everything else in the processor stays as it is, apart from the count of cycles. The program counter
moves to the next instruction, unless the program goes elsewhere. -/

namespace Nes

namespace Cpu

inductive Register where
  | a
  | x
  | y
  | s
  deriving DecidableEq, Repr

inductive Flag where
  | carry
  | zero
  | interruptDisable
  | decimal
  | overflow
  | negative
  deriving DecidableEq, Repr

def Registers.get (registers : Registers) : Register → UInt8
  | .a => registers.a
  | .x => registers.x
  | .y => registers.y
  | .s => registers.s

def Flags.get (flags : Flags) : Flag → Bool
  | .carry => flags.carry
  | .zero => flags.zero
  | .interruptDisable => flags.interruptDisable
  | .decimal => flags.decimal
  | .overflow => flags.overflow
  | .negative => flags.negative

namespace Mnemonic

/-- An operation goes elsewhere than to the next instruction. A branch does if it is taken. -/
def leaves (mnemonic : Mnemonic) (flags : Flags) : Bool :=
  match mnemonic with
  | jmp | jsr | rts | rti | brk => true
  | bcc => !flags.carry
  | bcs => flags.carry
  | bne => !flags.zero
  | beq => flags.zero
  | bpl => !flags.negative
  | bmi => flags.negative
  | bvc => !flags.overflow
  | bvs => flags.overflow
  | _ => false

end Mnemonic

/-- An effect goes elsewhere than to the next instruction. -/
def Effect.leaves (effect : Effect) (flags : Flags) : Bool :=
  match effect with
  | branch taken => taken flags
  | jump | call | returnFromCall | returnFromInterrupt | softwareInterrupt => true
  | _ => false

section Registers

variable {mnemonic : Mnemonic} {mode : AddressingMode} {effect : Effect}

end Registers

end Cpu

namespace Machine

open Cpu

variable {β : Type} [Board β]

end Machine

end Nes
