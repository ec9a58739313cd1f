import Nes.Proofs.Cpu.Fetch
import Nes.Proofs.Cpu.Stack

/-! What an instruction does to the registers, given the byte that it takes from the bus. -/

namespace Nes

namespace Cpu

/-- The registers behind an effect, given those before it and the byte that it takes from the
bus. -/
def Effect.registersAfter (effect : Effect) (registers : Registers) (byte : UInt8) : Registers :=
  match effect with
  | load apply | modify _ apply => apply registers byte
  | internal apply => apply registers
  | pull apply => apply { registers with s := registers.s + 1 } byte
  | returnFromInterrupt =>
    { registers with s := registers.s + 1 + 1 + 1, flags := .ofByte byte }
  | returnFromCall => { registers with s := registers.s + 1 + 1 }
  | softwareInterrupt =>
    { registers with s := registers.s - 1 - 1 - 1, flags.interruptDisable := true }
  | call => { registers with s := registers.s - 1 - 1 }
  | push _ => { registers with s := registers.s - 1 }
  | store _ | branch _ | jump => registers

/-- The stack pointer behind an operation. -/
def Mnemonic.pointerAfter (mnemonic : Mnemonic) (registers : Registers) : UInt8 :=
  match mnemonic with
  | pha | php => registers.s - 1
  | jsr => registers.s - 2
  | brk => registers.s - 3
  | pla | plp => registers.s + 1
  | rts => registers.s + 2
  | rti => registers.s + 3
  | txs => registers.x
  | _ => registers.s

/-- The mnemonic tells where the stack pointer is behind an instruction. -/
theorem s_registersAfter {mnemonic : Mnemonic} {mode : AddressingMode} {effect : Effect}
    (hEffect : mnemonic.effect? mode = some effect) (registers : Registers) (byte : UInt8) :
    (effect.registersAfter registers byte).s = mnemonic.pointerAfter registers := by
  cases mnemonic with
  | jsr =>
      obtain rfl := Option.some.inj hEffect
      exact show registers.s - 1 - 1 = registers.s - 2 by grind
  | brk =>
      obtain rfl := Option.some.inj hEffect
      exact show registers.s - 1 - 1 - 1 = registers.s - 3 by grind
  | rts =>
      obtain rfl := Option.some.inj hEffect
      exact show registers.s + 1 + 1 = registers.s + 2 by grind
  | rti =>
      obtain rfl := Option.some.inj hEffect
      exact show registers.s + 1 + 1 + 1 = registers.s + 3 by grind
  | asl | lsr | rol | ror =>
      obtain rfl := Option.some.inj hEffect
      rw [Effect.shift]
      split <;> rfl
  | nop =>
      obtain rfl := Option.some.inj hEffect
      split <;> rfl
  | ahx | jam | las | lxa | shx | shy | tas | xaa => cases hEffect
  | _ =>
      obtain rfl := Option.some.inj hEffect
      rfl

end Cpu

namespace Machine

open Cpu

variable {β : Type} [Board β]

def mnemonic (machine : Machine β) : Mnemonic :=
  (decode (machine.read machine.cpu.pc).1).mnemonic

def takenByte (machine : Machine β) (effect : Effect) (operand : Operand) : UInt8 :=
  match effect with
  | .load _ | .modify _ _ => (machine.read operand.address).1
  | _ => machine.top

/-- The registers behind an instruction depend on those before it and on the byte that it takes. -/
theorem registers_perform (machine : Machine β) (effect : Effect) (operand : Operand) :
    (machine.perform effect operand).cpu.toRegisters =
      effect.registersAfter machine.cpu.toRegisters (machine.takenByte effect operand) := by
  cases effect with
  | branch taken =>
      rw [perform]
      split <;> rfl
  | pull apply =>
      exact congrArg (apply { machine.cpu.toRegisters with s := machine.cpu.s + 1 })
        machine.fst_pull
  | returnFromInterrupt =>
      exact congrArg (Effect.registersAfter .returnFromInterrupt machine.cpu.toRegisters)
        machine.fst_pull
  | _ => rfl

theorem top_fetchOperand (machine : Machine β) (mode : AddressingMode) :
    (machine.behindOpcode.fetchOperand mode).2.top = machine.top :=
  top_congr (congrArg Registers.s (machine.registers_fetchOperand mode))
    (machine.sameMemory_fetchOperand mode).ram

/-- An instruction that was executed has a dependable effect. -/
theorem exists_effect {machine next : Machine β} {cycles : UInt64}
    (hStep : machine.stepInstruction = .ok cycles next) :
    ∃ effect, (decode (machine.read machine.cpu.pc).1).effect? = some effect := by
  cases hEffect : (decode (machine.read machine.cpu.pc).1).effect? with
  | none =>
      simp only [stepInstruction] at hStep
      rw [hEffect] at hStep
      cases hStep
  | some effect => exact ⟨effect, rfl⟩

/-- The registers behind an instruction. -/
theorem registers_stepInstruction {machine next : Machine β} {cycles : UInt64} {effect : Effect}
    (hEffect : (decode (machine.read machine.cpu.pc).1).effect? = some effect)
    (hStep : machine.stepInstruction = .ok cycles next) :
    let fetched := machine.behindOpcode.fetchOperand (decode (machine.read machine.cpu.pc).1).mode
    next.cpu.toRegisters = effect.registersAfter machine.cpu.toRegisters
      (fetched.2.takenByte effect fetched.1) := by
  intro fetched
  rw [machine.stepInstruction_eq hEffect] at hStep
  injection hStep with hCycles hNext
  rw [← machine.registers_fetchOperand (decode (machine.read machine.cpu.pc).1).mode, ← hNext]
  exact fetched.2.registers_perform effect fetched.1

end Machine

end Nes
