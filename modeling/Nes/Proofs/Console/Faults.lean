import Nes.Proofs.Bus.Driven
import Nes.Proofs.Console.Session

/-! Faults. A step that comes to an opcode without a dependable effect reads it and stops there, so
the console can be inspected, or reset, as if the step had not begun. -/

namespace Nes

open Cpu

namespace Machine

variable {β : Type} [Board β]

/-- A step faults if no reset or interrupt is due and the opcode at the program counter has no
dependable effect. -/
theorem step_eq_error_iff (machine next : Machine β) (fault : Fault) :
    machine.step = .error fault next ↔
      machine.cpu.takesInstruction = true ∧
      (decode (machine.read machine.cpu.pc).1).effect? = none ∧
      fault = ⟨(machine.read machine.cpu.pc).1, machine.cpu.pc⟩ ∧
      next = (machine.read machine.cpu.pc).2 := by
  cases hTakes : machine.cpu.takesInstruction with
  | false =>
      obtain ⟨done, hStep, -⟩ := exists_step_of_due hTakes
      simp [hStep]
  | true =>
      rw [machine.step_of_takesInstruction hTakes]
      simp only [stepInstruction]
      split
      · rename_i hEffect
        simp only [EStateM.Result.error.injEq, hEffect, true_and, eq_comm]
      · rename_i effect hEffect
        simp [hEffect]

/-- A fault in memory is met again by the next step, which finds the machine as it leaves it. -/
theorem step_of_step_error {machine next : Machine β} {fault : Fault}
    (hStep : machine.step = .error fault next) (hDriven : machine.bus.Driven machine.cpu.pc) :
    next.step = .error fault next := by
  obtain ⟨hTakes, hEffect, hFault, hNext⟩ := (step_eq_error_iff _ _ _).mp hStep
  have hCpu : next.cpu = machine.cpu := by
    rw [hNext]
    rfl
  have hBus : next.bus = machine.bus.drive machine.cpu.pc := by
    rw [hNext]
    rfl
  have hAgain : next.read machine.cpu.pc = machine.read machine.cpu.pc := by
    have hDrive : next.bus.drive machine.cpu.pc = machine.bus.drive machine.cpu.pc := by
      rw [hBus, hDriven.drive_drive]
    simp only [read, Bus.read, hDrive, hCpu]
  rw [step_eq_error_iff, hCpu, hAgain]
  exact ⟨hTakes, hEffect, hFault, hNext⟩

end Machine

namespace Console

variable {β : Type} [Board β]

/-- A fault of the processor ends a step of the console. -/
theorem step_of_machine_error {console : Console β} {machine : Machine β} {fault : Fault}
    (hMachine : console.toMachine.step = .error fault machine) :
    console.step = .error fault { console.trace with toMachine := machine } := by
  simp only [step, toMachine_trace, hMachine]

/-- A step faults exactly if an instruction is due and has no dependable effect. All that has
happened then is that its opcode was read. -/
theorem step_eq_error_iff (console next : Console β) (fault : Fault) :
    console.step = .error fault next ↔
      console.cpu.takesInstruction = true ∧
      (decode (console.bus.read console.cpu.pc).1).effect? = none ∧
      fault = ⟨(console.bus.read console.cpu.pc).1, console.cpu.pc⟩ ∧
      next = { console.trace with bus := (console.bus.read console.cpu.pc).2 } := by
  have hKept : ({ console.trace with toMachine := (console.toMachine.read console.cpu.pc).2 } :
      Console β) = { console.trace with bus := (console.bus.read console.cpu.pc).2 } := by
    rw [← toMachine_trace console]
    rfl
  constructor
  · intro hStep
    obtain ⟨hTakes, hEffect, hFault, hNext⟩ :=
      (Machine.step_eq_error_iff _ _ _).mp (step_error hStep)
    have hSame := step_of_machine_error (step_error hStep)
    rw [hStep, hNext] at hSame
    injection hSame with _ hSame
    exact ⟨hTakes, hEffect, hFault, hSame.trans hKept⟩
  · rintro ⟨hTakes, hEffect, rfl, rfl⟩
    rw [← hKept]
    exact step_of_machine_error ((Machine.step_eq_error_iff _ _ _).mpr ⟨hTakes, hEffect, rfl, rfl⟩)

/-- A step does not fault on an instruction with a dependable effect. -/
theorem exists_step {console : Console β}
    (hEffect : (decode (console.bus.read console.cpu.pc).1).effect?.isSome = true) :
    ∃ total, console.step = .ok total (left console.step) := by
  cases hStep : console.step with
  | ok total next => exact ⟨total, rfl⟩
  | error fault next =>
      rw [((step_eq_error_iff console next fault).mp hStep).2.1] at hEffect
      cases hEffect

/-- Steps that meet a fault which leaves the machine alone meet it again and again. -/
theorem step_applyAll_of_fault {console : Console β} {fault : Fault}
    (hFault : console.toMachine.step = .error fault console.toMachine) (count : Nat) :
    ∃ later, (console.applyAll (List.replicate count .step)).step = .error fault later ∧
      later.toMachine = console.toMachine := by
  have hStep := step_of_machine_error hFault
  induction count generalizing console with
  | zero => exact ⟨_, hStep, rfl⟩
  | succ count ih =>
      have hApply : console.apply .step = { console.trace with toMachine := console.toMachine } :=
        congrArg left hStep
      rw [List.replicate_succ, applyAll, hApply]
      exact ih hFault (step_of_machine_error hFault)

/-- An instruction is due if nothing else is. -/
theorem takesInstruction_iff (cpu : Cpu) :
    cpu.takesInstruction = true ↔ cpu.resetPending = false ∧ cpu.nmiPending = false ∧
      ¬(cpu.irq = true ∧ cpu.flags.interruptDisable = false) := by
  simp only [Cpu.takesInstruction, Cpu.takesIrq, Bool.and_eq_true, Bool.not_eq_true', and_assoc,
    Bool.and_eq_false_iff, Bool.not_eq_false', Decidable.not_and_iff_not_or_not, Bool.not_eq_true,
    Bool.not_eq_false]

/-- A fault leaves the machine intact. A step faults exactly if no reset, no non-maskable interrupt
and no interrupt that is let through is due and the opcode at the program counter has no dependable
effect. It tells the opcode and its address, and all that it has done to the machine is one read of
the bus. This read changes a register of the picture unit or a controller only at their own
addresses, and it moves neither the beam nor anything else. Where memory answers, it only leaves the
opcode on the bus, and all further steps fault in the same way and leave the machine as it is. -/
theorem fault_leaves_machine (console : Console β) :
    (∀ fault next, console.step = .error fault next ↔
      (console.cpu.resetPending = false ∧ console.cpu.nmiPending = false ∧
        ¬(console.cpu.irq = true ∧ console.cpu.flags.interruptDisable = false)) ∧
      (decode (console.bus.read console.cpu.pc).1).effect? = none ∧
      fault = ⟨(console.bus.read console.cpu.pc).1, console.cpu.pc⟩ ∧
      next = { console.trace with bus := (console.bus.read console.cpu.pc).2 }) ∧
    ∀ fault next, console.step = .error fault next →
      (next.cpu = console.cpu ∧ next.bus.ram = console.bus.ram ∧
        next.bus.video = console.bus.video ∧ next.bus.dmaPage = console.bus.dmaPage ∧
        next.bus.ppu.beam = console.bus.ppu.beam) ∧
      (¬(0x2000 ≤ console.cpu.pc ∧ console.cpu.pc < 0x4000) →
        next.bus.ppu = console.bus.ppu) ∧
      (¬(console.cpu.pc = Bus.firstPadAddress ∨ console.cpu.pc = Bus.secondPadAddress) →
        next.bus.controllers = console.bus.controllers) ∧
      (console.bus.Driven console.cpu.pc →
        next.bus = { console.bus with latch := console.bus.peek console.cpu.pc } ∧
        ∀ count, ∃ later,
          (next.applyAll (List.replicate count .step)).step = .error fault later ∧
            later.toMachine = next.toMachine) := by
  constructor
  · intro fault next
    rw [step_eq_error_iff, takesInstruction_iff]
  · intro fault next hStep
    have hMachine := step_error hStep
    obtain ⟨-, -, -, hNext⟩ := (Machine.step_eq_error_iff _ _ _).mp hMachine
    have hCpu : next.cpu = console.cpu := by
      rw [hNext]
      rfl
    have hBus : next.bus = console.bus.drive console.cpu.pc := by
      rw [hNext]
      rfl
    refine ⟨⟨hCpu, ?_, ?_, ?_, ?_⟩, fun hApart => ?_, fun hApart => ?_, fun hDriven => ⟨?_, ?_⟩⟩
    · rw [hBus, Bus.ram_drive]
    · rw [hBus, Bus.video_drive]
    · rw [hBus, Bus.dmaPage_drive]
    · rw [hBus, Bus.beam_drive]
    · rw [hBus, Bus.ppu_drive _ hApart]
    · rw [hBus, Bus.controllers_drive _ hApart]
    · rw [hBus, Bus.drive_eq _ hDriven.not_asks]
    · exact step_applyAll_of_fault (Machine.step_of_step_error hMachine hDriven)

/-- A console before the opcode `$02` in its work memory, with a sprite transfer requested. -/
def jammed : Console Nrom where
  cpu := { pc := 0x0010, cycles := 3 }
  bus :=
    let cartridge : Cartridge Nrom := { board := ⟨⟨#[], #[], #[], false, .horizontal⟩⟩ }
    ({ video := { cartridge } : Bus Nrom }.write 0x0010 0x02).write 0x4014 0x07
  tracing := false

/-- An opcode that jams the processor, with a transfer requested. -/
theorem fault_leaves_machine_jammed :
    ∃ next, jammed.step = .error ⟨0x02, 0x0010⟩ next ∧ next.cpu = jammed.cpu ∧
      next.bus = { jammed.bus with latch := 0x02 } ∧ next.bus.dmaPage = some 0x07 ∧
      jammed.bus.Driven jammed.cpu.pc ∧
      ∃ later, (next.applyAll [.step, .step]).step = .error ⟨0x02, 0x0010⟩ later ∧
        later.toMachine = next.toMachine := by
  obtain ⟨hFaults, hLeaves⟩ := fault_leaves_machine jammed
  have hOpcode : (jammed.bus.read jammed.cpu.pc).1 = 0x02 := by decide
  have hPeek : jammed.bus.peek jammed.cpu.pc = 0x02 := by decide
  have hDriven : jammed.bus.Driven jammed.cpu.pc := .inl (by decide)
  have hStep := (hFaults ⟨0x02, 0x0010⟩ _).mpr
    ⟨by decide, hOpcode ▸ rfl, hOpcode ▸ rfl, rfl⟩
  obtain ⟨⟨hCpu, -, -, hPage, -⟩, -, -, hMemory⟩ := hLeaves _ _ hStep
  obtain ⟨hBus, hAgain⟩ := hMemory hDriven
  rw [hPeek] at hBus
  exact ⟨_, hStep, hCpu, hBus, hPage, hDriven, hAgain 2⟩

end Console

end Nes
