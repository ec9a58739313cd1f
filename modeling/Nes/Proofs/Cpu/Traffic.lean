import Nes.Cpu.Step
import Nes.Proofs.Bus.Traffic

/-! What the processor puts on its bus in one step. The bus changes by these accesses alone, and
apart from them a step changes registers and the cycle count. -/

namespace Nes.Machine

open Cpu Bus

variable {β : Type} [Board β]

def wordTraffic (address : UInt16) : List Access :=
  [.read address, .read (address + 1)]

def wordInPageTraffic (address : UInt16) : List Access :=
  [.read address, .read (nextInPage address)]

def pushWordTraffic (s : UInt8) (word : UInt16) : List Access :=
  [.write (stackAddress s) (highByte word), .write (stackAddress (s - 1)) (lowByte word)]

def operandTraffic (machine : Machine β) (mode : AddressingMode) : List Access :=
  let pc := machine.cpu.pc
  match mode with
  | .implied | .accumulator | .immediate => []
  | .zeroPage | .zeroPageX | .zeroPageY | .relative => [.read pc]
  | .absolute | .absoluteX | .absoluteY => wordTraffic pc
  | .indirect => wordTraffic pc ++ wordInPageTraffic machine.fetchWord.1
  | .indirectX =>
    .read pc :: wordInPageTraffic (machine.fetchByte.1 + machine.cpu.x).toUInt16
  | .indirectY => .read pc :: wordInPageTraffic machine.fetchByte.1.toUInt16

def interruptTraffic (machine : Machine β) (vector : UInt16) (software : Bool) : List Access :=
  let mark := if software then Flags.breakBit else 0
  pushWordTraffic machine.cpu.s machine.cpu.pc ++
    .write (stackAddress (machine.cpu.s - 1 - 1)) (machine.cpu.flags.toByte ||| mark) ::
      wordTraffic vector

/-- The accesses of an instruction once its operand is known. -/
def effectTraffic (machine : Machine β) (effect : Effect) (operand : Operand) : List Access :=
  let registers := machine.cpu.toRegisters
  let s := registers.s
  match effect with
  | .load _ => [.read operand.address]
  | .store value => [.write operand.address (value registers)]
  | .modify result _ =>
    let value := (machine.read operand.address).1
    [.read operand.address, .write operand.address (result registers value)]
  | .internal _ | .branch _ | .jump => []
  | .call => pushWordTraffic s (machine.cpu.pc - 1)
  | .returnFromCall => [.read (stackAddress (s + 1)), .read (stackAddress (s + 1 + 1))]
  | .returnFromInterrupt =>
    [.read (stackAddress (s + 1)), .read (stackAddress (s + 1 + 1)),
      .read (stackAddress (s + 1 + 1 + 1))]
  | .softwareInterrupt => (machine.goto (machine.cpu.pc + 1)).interruptTraffic irqVector true
  | .push value => [.write (stackAddress s) (value registers)]
  | .pull _ => [.read (stackAddress (s + 1))]

def instructionTraffic (machine : Machine β) : List Access :=
  let address := machine.cpu.pc
  let (opcode, fetched) := machine.read address
  let instruction := decode opcode
  .read address ::
    match instruction.effect? with
    | none => []
    | some effect =>
      let start := fetched.goto (address + 1)
      let (operand, ready) := start.fetchOperand instruction.mode
      start.operandTraffic instruction.mode ++ ready.effectTraffic effect operand

def traffic (machine : Machine β) : List Access :=
  if machine.cpu.resetPending then wordTraffic resetVector
  else if machine.cpu.nmiPending then machine.interruptTraffic nmiVector false
  else if machine.cpu.takesIrq then machine.interruptTraffic irqVector false
  else machine.instructionTraffic

/-- The stack is page one. -/
theorem toNat_stackAddress (s : UInt8) : (stackAddress s).toNat = 0x100 + s.toNat := by
  have hLt := s.toNat_lt
  rw [stackAddress, UInt16.toNat_add, UInt8.toNat_toUInt16]
  exact Nat.mod_eq_of_lt (show 0x100 + s.toNat < 0x10000 by omega)

/-- One machine comes from another by accesses to the bus and by work on registers, which leaves
the cycle count and the signals of the processor as they are. -/
structure Works (before : Machine β) (accesses : List Access) (after : Machine β) : Prop where
  bus : after.bus = before.bus.accessAll accesses
  cycles : after.cpu.cycles = before.cpu.cycles
  resetPending : after.cpu.resetPending = before.cpu.resetPending
  nmiPending : after.cpu.nmiPending = before.cpu.nmiPending

theorem Works.trans {before between after : Machine β} {first second : List Access}
    (hFirst : Works before first between) (hSecond : Works between second after) :
    Works before (first ++ second) after where
  bus := by rw [accessAll_append, ← hFirst.bus, hSecond.bus]
  cycles := hSecond.cycles.trans hFirst.cycles
  resetPending := hSecond.resetPending.trans hFirst.resetPending
  nmiPending := hSecond.nmiPending.trans hFirst.nmiPending

/-- Fetching an operand does its accesses on the bus, and nothing else. -/
theorem works_operand (machine : Machine β) (mode : AddressingMode) :
    Works machine (machine.operandTraffic mode) (machine.fetchOperand mode).2 := by
  cases mode <;> exact ⟨rfl, rfl, rfl, rfl⟩

/-- An interrupt does its accesses on the bus, and nothing else. -/
theorem works_interrupt (machine : Machine β) (vector : UInt16) (software : Bool) :
    Works machine (machine.interruptTraffic vector software) (machine.interrupt vector software) :=
  ⟨rfl, rfl, rfl, rfl⟩

/-- An effect does its accesses on the bus, and nothing else. -/
theorem works_effect (machine : Machine β) (effect : Effect) (operand : Operand) :
    Works machine (machine.effectTraffic effect operand) (machine.perform effect operand) := by
  cases effect with
  | branch taken =>
      simp only [perform, effectTraffic]
      split <;> exact ⟨rfl, rfl, rfl, rfl⟩
  | softwareInterrupt =>
      have h := works_interrupt (machine.goto (machine.cpu.pc + 1)) irqVector true
      exact ⟨h.bus, h.cycles, h.resetPending, h.nmiPending⟩
  | _ => exact ⟨rfl, rfl, rfl, rfl⟩

/-- An instruction with a dependable effect works through its traffic, and then its cycles are
counted. -/
theorem stepInstruction_ok {machine next : Machine β} {cycles : UInt64}
    (hStep : machine.stepInstruction = .ok cycles next) :
    ∃ done : Machine β, Works machine machine.instructionTraffic done ∧
      next = done.spend cycles ∧
      ∃ (opcode : UInt8) (effect : Effect) (operand : Operand) (flags : Flags),
        (decode opcode).effect? = some effect ∧
        cycles = (decode opcode).cost effect operand flags := by
  simp only [stepInstruction] at hStep
  split at hStep
  · cases hStep
  · rename_i effect hEffect
    injection hStep with hCycles hNext
    let start := (machine.read machine.cpu.pc).2.goto (machine.cpu.pc + 1)
    let instruction := decode (machine.read machine.cpu.pc).1
    let ready := start.fetchOperand instruction.mode
    have hRead : Works machine [.read machine.cpu.pc] start := ⟨rfl, rfl, rfl, rfl⟩
    have hOperand := works_operand start instruction.mode
    have hWork := hRead.trans (hOperand.trans (works_effect ready.2 effect ready.1))
    refine ⟨ready.2.perform effect ready.1, ?_, ?_, _, effect, ready.1, ready.2.cpu.flags, hEffect,
      hCycles.symm⟩
    · simp only [instructionTraffic, hEffect]
      exact hWork
    · rw [← hNext, ← hCycles]

/-- A fault reads the opcode and changes nothing else. -/
theorem stepInstruction_error {machine next : Machine β} {fault : Fault}
    (hStep : machine.stepInstruction = .error fault next) :
    machine.instructionTraffic = [.read machine.cpu.pc] ∧
      Works machine [.read machine.cpu.pc] next := by
  simp only [stepInstruction] at hStep
  split at hStep
  · rename_i hEffect
    injection hStep with hFault hNext
    constructor
    · simp only [instructionTraffic, hEffect]
    · rw [← hNext]
      exact ⟨rfl, rfl, rfl, rfl⟩
  · cases hStep

/-- With no reset or interrupt due, a step executes the instruction at the program counter. -/
theorem step_of_takesInstruction (machine : Machine β)
    (hNothingDue : machine.cpu.takesInstruction = true) :
    machine.step = machine.stepInstruction := by
  simp only [takesInstruction, Bool.and_eq_true, Bool.not_eq_true'] at hNothingDue
  obtain ⟨⟨hReset, hNmi⟩, hIrq⟩ := hNothingDue
  simp only [step, hReset, hNmi, hIrq, Bool.false_eq_true, if_false]

/-- With a reset or an interrupt due, a step does not come to an opcode, and disables interrupts. -/
theorem exists_step_of_due {machine : Machine β} (hDue : machine.cpu.takesInstruction = false) :
    ∃ next, machine.step = .ok interruptCycles next ∧
      next.cpu.flags.interruptDisable = true := by
  simp only [step]
  split
  · exact ⟨_, rfl, rfl⟩
  · split
    · exact ⟨_, rfl, rfl⟩
    · split
      · exact ⟨_, rfl, rfl⟩
      · simp_all [takesInstruction]

/-- The cycles of a step are those of an instruction, or those of an interrupt. -/
theorem step_ok {machine next : Machine β} {cycles : UInt64}
    (hStep : machine.step = .ok cycles next) :
    next.bus = machine.bus.accessAll machine.traffic ∧
      next.cpu.cycles = machine.cpu.cycles + cycles ∧
      next.cpu.resetPending = false ∧ next.cpu.nmiPending = false ∧
      (cycles = interruptCycles ∨ machine.stepInstruction = .ok cycles next) := by
  simp only [step] at hStep
  rw [traffic]
  split at hStep
  · rename_i hReset
    injection hStep with hCycles hNext
    rw [if_pos hReset, ← hNext, ← hCycles]
    exact ⟨rfl, rfl, rfl, rfl, .inl rfl⟩
  · rename_i hReset
    rw [if_neg hReset]
    rw [Bool.not_eq_true] at hReset
    split at hStep
    · rename_i hNmi
      injection hStep with hCycles hNext
      rw [if_pos hNmi, ← hNext, ← hCycles]
      exact ⟨rfl, rfl, hReset, rfl, .inl rfl⟩
    · rename_i hNmi
      rw [if_neg hNmi]
      rw [Bool.not_eq_true] at hNmi
      split at hStep
      · rename_i hIrq
        injection hStep with hCycles hNext
        rw [if_pos hIrq, ← hNext, ← hCycles]
        exact ⟨rfl, rfl, hReset, hNmi, .inl rfl⟩
      · rename_i hIrq
        rw [if_neg hIrq]
        obtain ⟨done, hWork, rfl, -⟩ := stepInstruction_ok hStep
        refine ⟨hWork.bus, ?_, hWork.resetPending.trans hReset, hWork.nmiPending.trans hNmi,
          .inr hStep⟩
        exact congrArg (· + cycles) hWork.cycles

/-- A step that faults has read its opcode, with neither a reset nor a non-maskable interrupt due.
-/
theorem step_error {machine next : Machine β} {fault : Fault}
    (hStep : machine.step = .error fault next) :
    machine.traffic = [.read machine.cpu.pc] ∧ Works machine [.read machine.cpu.pc] next ∧
      machine.cpu.resetPending = false ∧ machine.cpu.nmiPending = false := by
  simp only [step] at hStep
  rw [traffic]
  split at hStep
  · cases hStep
  · rename_i hReset
    split at hStep
    · cases hStep
    · rename_i hNmi
      split at hStep
      · cases hStep
      · rename_i hIrq
        rw [if_neg hReset, if_neg hNmi, if_neg hIrq]
        rw [Bool.not_eq_true] at hReset hNmi
        obtain ⟨hTraffic, hWork⟩ := stepInstruction_error hStep
        exact ⟨hTraffic, hWork, hReset, hNmi⟩

end Nes.Machine

namespace Nes.Cpu

/-- The most that a branch costs when it is taken. -/
def Instruction.branchPrice (instruction : Instruction) : Nat :=
  match instruction.effect? with
  | some (.branch _) => 2
  | _ => 0

/-- The cycles that an effect adds when it branches. -/
def Effect.branching (effect : Effect) (operand : Operand) (flags : Flags) : Nat :=
  match effect with
  | .branch taken => if taken flags then (if operand.pageCrossed then 2 else 1) else 0
  | _ => 0

/-- In the instruction set no instruction takes less than two or, with everything that can be added,
more than eight cycles. -/
theorem instruction_cycles (opcode : UInt8) :
    2 ≤ (decode opcode).cycles ∧
      (decode opcode).cycles + (decode opcode).pagePenalty.toNat + (decode opcode).branchPrice ≤
        8 :=
  forall_decode (p := fun instruction => 2 ≤ instruction.cycles ∧
    instruction.cycles + instruction.pagePenalty.toNat + instruction.branchPrice ≤ 8)
    (by decide) opcode

/-- A branch costs two cycles more at most. -/
theorem branching_le {opcode : UInt8} {effect : Effect} (operand : Operand) (flags : Flags)
    (hEffect : (decode opcode).effect? = some effect) :
    effect.branching operand flags ≤ (decode opcode).branchPrice := by
  simp only [Instruction.branchPrice, hEffect]
  cases effect with
  | branch taken =>
      simp only [Effect.branching]
      split
      · split <;> decide
      · exact Nat.zero_le 2
  | _ => exact Nat.le_refl 0

/-- The cycles of an instruction are few enough for their count. -/
theorem toNat_cost {opcode : UInt8} {effect : Effect} (operand : Operand) (flags : Flags)
    (hEffect : (decode opcode).effect? = some effect) :
    ((decode opcode).cost effect operand flags).toNat = (decode opcode).cycles +
      ((decode opcode).pagePenalty && operand.pageCrossed).toNat +
      effect.branching operand flags := by
  have hMost := (instruction_cycles opcode).2
  have hIndexing : ((decode opcode).pagePenalty && operand.pageCrossed).toNat ≤
      (decode opcode).pagePenalty.toNat := by
    cases (decode opcode).pagePenalty <;> cases operand.pageCrossed <;> decide
  have hBranching := branching_le operand flags hEffect
  have hOne (condition : Bool) : (if condition then 1 else 0) = condition.toNat := by
    cases condition <;> rfl
  have hCost : (decode opcode).cost effect operand flags = UInt64.ofNat ((decode opcode).cycles +
      (if (decode opcode).pagePenalty && operand.pageCrossed then 1 else 0) +
      effect.branching operand flags) := rfl
  rw [hCost, hOne, UInt64.toNat_ofNat']
  exact Nat.mod_eq_of_lt (by omega)

/-- An instruction takes two to eight cycles. -/
theorem cost_bounds {opcode : UInt8} {effect : Effect} (operand : Operand) (flags : Flags)
    (hEffect : (decode opcode).effect? = some effect) :
    2 ≤ ((decode opcode).cost effect operand flags).toNat ∧
      ((decode opcode).cost effect operand flags).toNat ≤ 8 := by
  obtain ⟨hLeast, hMost⟩ := instruction_cycles opcode
  have hIndexing : ((decode opcode).pagePenalty && operand.pageCrossed).toNat ≤
      (decode opcode).pagePenalty.toNat := by
    cases (decode opcode).pagePenalty <;> cases operand.pageCrossed <;> decide
  have hBranching := branching_le operand flags hEffect
  rw [toNat_cost operand flags hEffect]
  omega

end Nes.Cpu

namespace Nes.Machine

open Cpu

variable {β : Type} [Board β]

/-- The processor's part of a step takes two to eight cycles. -/
theorem step_cycles {machine next : Machine β} {cycles : UInt64}
    (hStep : machine.step = .ok cycles next) : 2 ≤ cycles.toNat ∧ cycles.toNat ≤ 8 := by
  obtain ⟨-, -, -, -, hInterrupt | hInstruction⟩ := step_ok hStep
  · rw [hInterrupt]
    decide
  · obtain ⟨-, -, -, opcode, effect, operand, flags, hEffect, rfl⟩ :=
      stepInstruction_ok hInstruction
    exact cost_bounds operand flags hEffect

end Nes.Machine
