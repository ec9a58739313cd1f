import Nes.Proofs.Cpu.Registers

/-! The flag that disables interrupts. A reset or an interrupt sets it. The program sets or clears
it by itself or loads it from the stack, and no other instruction changes it. A step takes a request
of the cartridge exactly if the flag is clear and nothing else is due. -/

namespace Nes

namespace Cpu

/-- Whether interrupts are disabled behind an instruction, given whether they were before it and the
byte on top of the stack. -/
def Mnemonic.disableAfter (mnemonic : Mnemonic) (before : Bool) (top : UInt8) : Bool :=
  match mnemonic with
  | brk | sei => true
  | cli => false
  | plp | rti => (Flags.ofByte top).interruptDisable
  | _ => before

/-- The instruction can let interrupts through that were disabled before it. -/
def Mnemonic.mayEnable : Mnemonic → Bool
  | cli | plp | rti => true
  | _ => false

/-- The instructions have the effects on the flag that are known of them. -/
theorem interruptDisable_registersAfter {mnemonic : Mnemonic} {mode : AddressingMode}
    {effect : Effect} (hEffect : mnemonic.effect? mode = some effect) (registers : Registers)
    (byte : UInt8) :
    (effect.registersAfter registers byte).flags.interruptDisable =
      mnemonic.disableAfter registers.flags.interruptDisable byte := by
  cases mnemonic with
  | asl | lsr | rol | ror =>
      obtain rfl := Option.some.inj hEffect
      rw [Effect.shift]
      split <;> rfl
  | nop =>
      obtain rfl := Option.some.inj hEffect
      split <;> rfl
  | ahx | jam | las | lxa | shx | shy | tas | xaa => cases hEffect
  | _ =>
      obtain rfl := Option.some.inj hEffect
      rfl

/-- The stack pointer moves as in an interrupt only by a software interrupt or if it is loaded. -/
theorem s_registersAfter_ne {mnemonic : Mnemonic} {mode : AddressingMode} {effect : Effect}
    (hEffect : mnemonic.effect? mode = some effect) (hSoftware : mnemonic ≠ .brk)
    (hLoaded : mnemonic ≠ .txs) (registers : Registers) (byte : UInt8) :
    (effect.registersAfter registers byte).s ≠ registers.s - 1 - 1 - 1 := by
  rw [s_registersAfter hEffect]
  cases mnemonic with
  | brk => exact absurd rfl hSoftware
  | txs => exact absurd rfl hLoaded
  | pha | php =>
      exact show registers.s - 1 ≠ registers.s - 1 - 1 - 1 by grind
  | jsr => exact show registers.s - 2 ≠ registers.s - 1 - 1 - 1 by grind
  | pla | plp => exact show registers.s + 1 ≠ registers.s - 1 - 1 - 1 by grind
  | rts => exact show registers.s + 2 ≠ registers.s - 1 - 1 - 1 by grind
  | rti => exact show registers.s + 3 ≠ registers.s - 1 - 1 - 1 by grind
  | _ => exact show registers.s ≠ registers.s - 1 - 1 - 1 by grind

/-- Only an instruction that may enable interrupts leaves the flag clear where it was set. -/
theorem Mnemonic.mayEnable_of_disableAfter {mnemonic : Mnemonic} {top : UInt8}
    (hEnabled : mnemonic.disableAfter true top = false) : mnemonic.mayEnable = true := by
  cases mnemonic with
  | cli | plp | rti => rfl
  | _ => cases hEnabled

/-- Loading the stack pointer takes two cycles, and not as many as an interrupt. -/
theorem cost_txs_ne {opcode : UInt8} {effect : Effect} (operand : Operand) (flags : Flags)
    (hEffect : (decode opcode).effect? = some effect) (hLoads : (decode opcode).mnemonic = .txs) :
    (decode opcode).cost effect operand flags ≠ interruptCycles := by
  have hCycles : (decode opcode).mnemonic = .txs →
      (decode opcode).cycles = 2 ∧ (decode opcode).pagePenalty = false :=
    forall_decode (p := fun instruction => instruction.mnemonic = .txs →
      instruction.cycles = 2 ∧ instruction.pagePenalty = false) (by decide) opcode
  have hBranching : effect.branching operand flags = 0 := by
    rw [Instruction.effect?, hLoads] at hEffect
    obtain rfl := Option.some.inj hEffect
    rfl
  intro hSame
  have hCost := toNat_cost operand flags hEffect
  rw [hSame, (hCycles hLoads).1, (hCycles hLoads).2, hBranching, Bool.false_and] at hCost
  exact absurd hCost (by decide)

end Cpu

namespace Machine

open Cpu

variable {β : Type} [Board β]

/-- The step goes to the routine for requests of the cartridge, and leaves the way back and the
flags on the stack. -/
def TakesRequest (machine : Machine β) : Prop :=
  machine.step = .ok interruptCycles ((machine.interrupt irqVector false).spend interruptCycles)

/-- An instruction that takes its flags from the bus takes them from the top of the stack. -/
theorem disableAfter_takenByte (machine : Machine β) {mnemonic : Mnemonic} {mode : AddressingMode}
    {effect : Effect} (hEffect : mnemonic.effect? mode = some effect) (before : Bool)
    (operand : Operand) :
    mnemonic.disableAfter before (machine.takenByte effect operand) =
      mnemonic.disableAfter before machine.top := by
  cases mnemonic with
  | plp | rti =>
      obtain rfl := Option.some.inj hEffect
      rfl
  | _ => rfl

/-- Whether interrupts are disabled behind an instruction. -/
theorem interruptDisable_stepInstruction {machine next : Machine β} {cycles : UInt64}
    (hStep : machine.stepInstruction = .ok cycles next) :
    next.cpu.flags.interruptDisable =
      machine.mnemonic.disableAfter machine.cpu.flags.interruptDisable machine.top := by
  obtain ⟨effect, hEffect⟩ := exists_effect hStep
  let instruction := decode (machine.read machine.cpu.pc).1
  let fetched := machine.behindOpcode.fetchOperand instruction.mode
  calc next.cpu.flags.interruptDisable
      = (effect.registersAfter machine.cpu.toRegisters
          (fetched.2.takenByte effect fetched.1)).flags.interruptDisable := by
        rw [registers_stepInstruction hEffect hStep]
    _ = instruction.mnemonic.disableAfter machine.cpu.flags.interruptDisable fetched.2.top := by
        rw [interruptDisable_registersAfter hEffect, disableAfter_takenByte _ hEffect]
    _ = _ := by
        rw [top_fetchOperand]
        rfl

/-- Whether interrupts are disabled behind a step. -/
theorem interruptDisable_step {machine next : Machine β} {cycles : UInt64}
    (hStep : machine.step = .ok cycles next) :
    next.cpu.flags.interruptDisable =
      if machine.cpu.takesInstruction then
        machine.mnemonic.disableAfter machine.cpu.flags.interruptDisable machine.top
      else true := by
  cases hTakes : machine.cpu.takesInstruction with
  | true =>
      rw [machine.step_of_takesInstruction hTakes] at hStep
      exact interruptDisable_stepInstruction hStep
  | false =>
      obtain ⟨done, hDone, hDisabled⟩ := exists_step_of_due hTakes
      rw [hDone] at hStep
      injection hStep with hCycles hNext
      rw [← hNext, hDisabled]
      rfl

/-- No instruction does what an interrupt of the cartridge does. A software interrupt leaves its
mark on the stack, and other instructions move the stack pointer in other ways or take less time. -/
theorem stepInstruction_ne_interrupt (machine : Machine β) (vector : UInt16) :
    machine.stepInstruction ≠
      .ok interruptCycles ((machine.interrupt vector false).spend interruptCycles) := by
  intro hStep
  obtain ⟨effect, hEffect⟩ := exists_effect hStep
  let instruction := decode (machine.read machine.cpu.pc).1
  let fetched := machine.behindOpcode.fetchOperand instruction.mode
  rw [machine.stepInstruction_eq hEffect] at hStep
  injection hStep with hCycles hNext
  have hRegisters : fetched.2.cpu.toRegisters = machine.cpu.toRegisters :=
    machine.registers_fetchOperand instruction.mode
  by_cases hSoftware : instruction.mnemonic = .brk
  · obtain ⟨-, hUnmarked, -, hMarked⟩ := machine.cpu.flags.bits_toByte
    have hInterrupt : effect = .softwareInterrupt := by
      rw [Instruction.effect?, hSoftware] at hEffect
      exact (Option.some.inj hEffect).symm
    have hSpent := congrArg top hNext
    have hTop : (fetched.2.perform effect fetched.1).top = (machine.interrupt vector false).top :=
      hSpent
    have hFlags : fetched.2.cpu.flags = machine.cpu.flags := congrArg Registers.flags hRegisters
    have hLeft : (fetched.2.perform effect fetched.1).top =
        machine.cpu.flags.toByte ||| Flags.breakBit := by
      rw [hInterrupt, ← hFlags]
      exact (fetched.2.goto (fetched.2.cpu.pc + 1)).top_interrupt irqVector true
    have hRight : (machine.interrupt vector false).top = machine.cpu.flags.toByte :=
      (machine.top_interrupt vector false).trans UInt8.or_zero
    rw [← hLeft, hTop, hRight] at hMarked
    exact hMarked hUnmarked
  by_cases hLoaded : instruction.mnemonic = .txs
  · exact cost_txs_ne _ _ hEffect hLoaded hCycles
  · have hPointer : (fetched.2.perform effect fetched.1).cpu.toRegisters.s =
        machine.cpu.s - 1 - 1 - 1 := congrArg (fun machine => machine.cpu.s) hNext
    rw [registers_perform, hRegisters] at hPointer
    exact s_registersAfter_ne hEffect hSoftware hLoaded _ _ hPointer

/-- A step takes a request if there is one that is not disabled and nothing else is due. -/
theorem takesRequest_iff (machine : Machine β) :
    machine.TakesRequest ↔ machine.cpu.resetPending = false ∧ machine.cpu.nmiPending = false ∧
      machine.cpu.irq = true ∧ machine.cpu.flags.interruptDisable = false := by
  rw [TakesRequest, step]
  cases hReset : machine.cpu.resetPending with
  | true =>
      refine iff_of_false (fun hStep => ?_) (fun hNone => Bool.noConfusion hNone.1)
      injection hStep with hCycles hNext
      -- a reset clears its own signal, which an interrupt leaves alone
      have hKept : false = machine.cpu.resetPending :=
        congrArg (fun machine => machine.cpu.resetPending) hNext
      exact Bool.noConfusion (hKept.trans hReset)
  | false =>
      cases hNmi : machine.cpu.nmiPending with
      | true =>
          refine iff_of_false (fun hStep => ?_) (fun hNone => Bool.noConfusion hNone.2.1)
          injection hStep with hCycles hNext
          have hKept : false = machine.cpu.nmiPending :=
            congrArg (fun machine => machine.cpu.nmiPending) hNext
          exact Bool.noConfusion (hKept.trans hNmi)
      | false =>
          cases hIrq : machine.cpu.takesIrq with
          | true =>
              rw [takesIrq, Bool.and_eq_true, Bool.not_eq_true'] at hIrq
              exact iff_of_true rfl ⟨rfl, rfl, hIrq⟩
          | false =>
              refine iff_of_false (machine.stepInstruction_ne_interrupt irqVector) ?_
              rintro ⟨-, -, hRequest⟩
              rw [takesIrq, hRequest.1, hRequest.2] at hIrq
              cases hIrq

end Machine

end Nes
