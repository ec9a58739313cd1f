import Nes.Cpu.InstructionSet
import Nes.Cpu.Operand
import Nes.Text.Hex

/-! A step of the processor: a reset, an interrupt, or an instruction. -/

namespace Nes

namespace Cpu

/-- An instruction without a dependable effect, and where it is. -/
structure Fault where
  opcode : UInt8
  address : UInt16
  deriving DecidableEq, Repr

def Fault.message (fault : Fault) : String :=
  "unimplemented opcode $" ++ String.ofList (Hex.byte fault.opcode) ++ " at $" ++
    String.ofList (Hex.word fault.address)

/-- The cycles of an instruction: those in the instruction set, one for indexing into the next page
where that has a price, and one or two for a branch that is taken. -/
def Instruction.cost (instruction : Instruction) (effect : Effect) (operand : Operand)
    (flags : Flags) : UInt64 :=
  let indexing := if instruction.pagePenalty && operand.pageCrossed then 1 else 0
  let branching :=
    match effect with
    | .branch taken => if taken flags then (if operand.pageCrossed then 2 else 1) else 0
    | _ => 0
  UInt64.ofNat (instruction.cycles + indexing + branching)

def interruptCycles : UInt64 := 7

end Cpu

open Cpu

namespace Machine

variable {β : Type} [Board β]

/-- Goes to an interrupt routine and leaves the way back and the flags on the stack. A software
interrupt marks the pushed flags. -/
def interrupt (machine : Machine β) (vector : UInt16) (software : Bool) : Machine β :=
  let machine := machine.pushWord machine.cpu.pc
  let mark := if software then Flags.breakBit else 0
  let machine := machine.push (machine.cpu.flags.toByte ||| mark)
  let (address, machine) := machine.readWord vector
  { machine with cpu.flags.interruptDisable := true, cpu.pc := address }

/-- Does what an instruction does, given its operand. -/
def perform (machine : Machine β) (effect : Effect) (operand : Operand) : Machine β :=
  match effect with
  | .load apply =>
    let (value, machine) := machine.read operand.address
    machine.withRegisters (apply machine.cpu.toRegisters value)
  | .store value => machine.write operand.address (value machine.cpu.toRegisters)
  | .modify result apply =>
    let (value, machine) := machine.read operand.address
    let registers := machine.cpu.toRegisters
    (machine.write operand.address (result registers value)).withRegisters (apply registers value)
  | .internal apply => machine.withRegisters (apply machine.cpu.toRegisters)
  | .branch taken =>
    if taken machine.cpu.flags then machine.goto operand.address else machine
  | .jump => machine.goto operand.address
  | .call => (machine.pushWord (machine.cpu.pc - 1)).goto operand.address
  | .returnFromCall =>
    let (address, machine) := machine.pullWord
    machine.goto (address + 1)
  | .returnFromInterrupt =>
    let (flags, machine) := machine.pull
    let (address, machine) := machine.pullWord
    { machine with cpu.flags := .ofByte flags, cpu.pc := address }
  | .softwareInterrupt => (machine.goto (machine.cpu.pc + 1)).interrupt irqVector true
  | .push value => machine.push (value machine.cpu.toRegisters)
  | .pull apply =>
    let (value, machine) := machine.pull
    machine.withRegisters (apply machine.cpu.toRegisters value)

/-- The reset sequence. It moves the stack pointer like an interrupt but writes nothing. -/
def reset (machine : Machine β) : Machine β :=
  let (address, machine) := machine.readWord resetVector
  { machine with
    cpu.s := machine.cpu.s - 3
    cpu.flags.interruptDisable := true
    cpu.pc := address
    cpu.resetPending := false
    cpu.nmiPending := false }

/-- Executes the instruction at the program counter and gives the cycles that it took. If it has no
dependable effect, all that has happened is that its opcode was read. -/
def stepInstruction : EStateM Fault (Machine β) UInt64 := fun machine =>
  let address := machine.cpu.pc
  let (opcode, machine) := machine.read address
  let instruction := decode opcode
  match instruction.effect? with
  | none => .error { opcode, address } machine
  | some effect =>
    let (operand, machine) := (machine.goto (address + 1)).fetchOperand instruction.mode
    let cycles := instruction.cost effect operand machine.cpu.flags
    .ok cycles ((machine.perform effect operand).spend cycles)

/-- A step of the processor. A reset goes before everything else, then a non-maskable interrupt,
then an interrupt that is not disabled. Gives the cycles that the step took. -/
def step : EStateM Fault (Machine β) UInt64 := fun machine =>
  if machine.cpu.resetPending then
    .ok interruptCycles (machine.reset.spend interruptCycles)
  else if machine.cpu.nmiPending then
    let machine := { machine with cpu.nmiPending := false }
    .ok interruptCycles ((machine.interrupt nmiVector false).spend interruptCycles)
  else if machine.cpu.takesIrq then
    .ok interruptCycles ((machine.interrupt irqVector false).spend interruptCycles)
  else
    machine.stepInstruction

end Machine

end Nes
