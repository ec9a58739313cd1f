import Nes.Cpu.Flags

/-! The state of the processor. -/

namespace Nes

namespace Cpu

/-- The registers that instructions compute with. -/
structure Registers where
  a : UInt8 := 0
  x : UInt8 := 0
  y : UInt8 := 0
  /-- The stack pointer. The stack grows down in page one. -/
  s : UInt8 := 0
  flags : Flags := { interruptDisable := true }
  deriving DecidableEq, Repr

namespace Registers

/-- Loads the accumulator and sets the flags for it. -/
def withA (registers : Registers) (value : UInt8) : Registers :=
  { registers with a := value, flags := registers.flags.ofResult value }

def withX (registers : Registers) (value : UInt8) : Registers :=
  { registers with x := value, flags := registers.flags.ofResult value }

def withY (registers : Registers) (value : UInt8) : Registers :=
  { registers with y := value, flags := registers.flags.ofResult value }

end Registers

end Cpu

open Cpu

structure Cpu extends Registers where
  /-- The address of the next instruction. -/
  pc : UInt16 := 0
  /-- The cycles since power on. -/
  cycles : UInt64 := 0
  /-- Whether a reset is due before the next instruction. -/
  resetPending : Bool := false
  /-- Whether a non-maskable interrupt is due before the next instruction. -/
  nmiPending : Bool := false
  /-- Whether an interrupt is requested. -/
  irq : Bool := false
  deriving DecidableEq, Repr

namespace Cpu

/-- The cell of the stack that a stack pointer names. The stack is page one. -/
def stackAddress (s : UInt8) : UInt16 :=
  0x0100 + s.toUInt16

/-- Where the address of the non-maskable interrupt routine is. -/
def nmiVector : UInt16 := 0xfffa

/-- Where the address of the first instruction is. -/
def resetVector : UInt16 := 0xfffc

/-- Where the address of the interrupt routine is. -/
def irqVector : UInt16 := 0xfffe

/-- A processor whose reset is due, as after power on. -/
def powerOn : Cpu :=
  { resetPending := true }

/-- An interrupt is taken if it is requested and not disabled. -/
def takesIrq (cpu : Cpu) : Bool :=
  cpu.irq && !cpu.flags.interruptDisable

/-- The processor takes an instruction next, and not a reset or an interrupt. -/
def takesInstruction (cpu : Cpu) : Bool :=
  !cpu.resetPending && !cpu.nmiPending && !cpu.takesIrq

end Cpu

end Nes
