import Nes.Cartridge.Nrom
import Nes.Proofs.Console.Session
import Nes.Proofs.Cpu.TraceLine

/-! The trace of a session. Each step that fetches an instruction is logged once, before it has any
effect, and what its line shows is what the step goes on to fetch. -/

namespace Nes

open Cpu Cpu.Disassembly Bus

namespace Log

def addAll (log : Log) (level : Level) (texts : List String) : Log :=
  texts.foldl (fun log text => log.add level text) log

/-- A log that keeps a level keeps all texts of it in their order. -/
theorem addAll_of_keeps {log : Log} {level : Level} (hKeeps : log.keeps level = true)
    (texts : List String) :
    log.addAll level texts =
      { log with records := log.records ++ (texts.map (Record.mk level)).toArray } := by
  induction texts generalizing log with
  | nil => simp [addAll]
  | cons text texts ih =>
      let added : Log := { log with records := log.records.push ⟨level, text⟩ }
      have hAdd : log.add level text = added := if_pos hKeeps
      have hAdded : added.keeps level = true := hKeeps
      rw [addAll, List.foldl_cons, hAdd]
      refine (ih hAdded).trans ?_
      simp [added]

end Log

namespace Machine

variable {β : Type} [Board β]

/-- The machine behind the reset or the interrupt that a step takes, if it takes one. -/
def sequence? (machine : Machine β) : Option (Machine β) :=
  if machine.cpu.resetPending then some machine.reset
  else if machine.cpu.nmiPending then
    some ({ machine with cpu.nmiPending := false }.interrupt nmiVector false)
  else if machine.cpu.takesIrq then some (machine.interrupt irqVector false)
  else none

/-- A step takes a reset or an interrupt, or it executes the instruction at the program counter. -/
theorem step_eq (machine : Machine β) :
    machine.step =
      match machine.sequence? with
      | some done => .ok interruptCycles (done.spend interruptCycles)
      | none => machine.stepInstruction := by
  simp only [step, sequence?]
  cases machine.cpu.resetPending with
  | true => rfl
  | false =>
      cases machine.cpu.nmiPending with
      | true => rfl
      | false => cases machine.cpu.takesIrq <;> rfl

/-- An instruction begins with the reads of its own bytes, and one that faults reads only its
opcode. -/
theorem reads_stepInstruction (machine : Machine β) :
    match machine.stepInstruction with
    | .ok _ next =>
      next.bus = machine.bus.accessAll machine.instructionTraffic ∧
        machine.ownTraffic (decode (machine.read machine.cpu.pc).1).mode <+:
          machine.instructionTraffic
    | .error _ next => next.bus = machine.bus.accessAll [.read machine.cpu.pc] := by
  cases hStep : machine.stepInstruction with
  | ok cycles next =>
      obtain ⟨done, hWorks, rfl, -⟩ := stepInstruction_ok hStep
      refine ⟨hWorks.bus, machine.ownTraffic_prefix ?_⟩
      rw [Option.isSome_iff_ne_none]
      intro hFault
      simp only [stepInstruction, hFault] at hStep
      cases hStep
  | error fault next => exact (stepInstruction_error hStep).2.bus

/-- An instruction is due exactly if no sequence is. -/
theorem takesInstruction_eq (machine : Machine β) :
    machine.cpu.takesInstruction = machine.sequence?.isNone := by
  simp only [takesInstruction, sequence?]
  cases machine.cpu.resetPending <;> cases machine.cpu.nmiPending <;>
    cases machine.cpu.takesIrq <;> rfl

end Machine

namespace Console

variable {β : Type} [Board β]

/-- The lines that a move logs while tracing is on. -/
def linesOf (console : Console β) : Move → List String
  | .step => if console.toMachine.sequence?.isNone then [traceLine console.toMachine] else []
  | _ => []

/-- The lines of a number of moves, each with the state before its move. -/
def lines : Console β → List Move → List String
  | _, [] => []
  | console, move :: moves => console.linesOf move ++ (console.apply move).lines moves

/-- A step logs one line at most, before anything else. -/
theorem log_step (console : Console β) : (left console.step).log = console.trace.log := by
  simp only [step]
  split <;> rfl

/-- No move of a session switches tracing. -/
theorem tracing_apply (console : Console β) (move : Move) :
    (console.apply move).tracing = console.tracing := by
  cases move with
  | step =>
      simp only [apply, step]
      split <;> (simp only [left, trace]; split <;> rfl)
  | _ => rfl

/-- A move logs its lines and nothing else. -/
theorem log_apply {console : Console β} (hTracing : console.tracing = true) (move : Move) :
    (console.apply move).log = console.log.addAll .trace (console.linesOf move) := by
  cases move with
  | step =>
      rw [apply, log_step, trace, hTracing, Bool.true_and, console.toMachine.takesInstruction_eq]
      simp only [linesOf]
      split <;> rfl
  | _ => rfl

/-- The log behind a session has one line more for each instruction. -/
theorem log_applyAll {console : Console β} (hTracing : console.tracing = true)
    (moves : List Move) :
    (console.applyAll moves).log = console.log.addAll .trace (console.lines moves) := by
  induction moves generalizing console with
  | nil => rfl
  | cons move moves ih =>
      have hNext := (console.tracing_apply move).trans hTracing
      rw [applyAll, ih hNext, log_apply hTracing, lines, Log.addAll, Log.addAll, Log.addAll,
        List.foldl_append]

/-- The trace agrees with execution. While tracing is on, a session logs one line for each step that
executes an instruction, a faulty one included, and none for a step that takes a reset or an
interrupt; the line shows the state before the step. Where memory answers at the bytes of the
instruction and of its pointer, the line shows the bytes that the processor reads first, and the
address that it fetches for the operand with the byte that is read there. Fetching moves past the
operand. -/
theorem trace_agrees (console : Console β) (hTracing : console.tracing = true) :
    (∀ moves, (console.applyAll moves).log = console.log.addAll .trace (console.lines moves)) ∧
    (console.log.keeps .trace = true → ∀ moves, (console.applyAll moves).log.records =
      console.log.records ++ ((console.lines moves).map (Record.mk .trace)).toArray) ∧
    (∀ machine : Machine β, machine.step =
      match machine.sequence? with
      | some done => .ok interruptCycles (done.spend interruptCycles)
      | none => machine.stepInstruction) ∧
    (∀ machine : Machine β,
      machine.Shows (decode (machine.bus.peek machine.cpu.pc)).mode →
      let instruction := decode (machine.read machine.cpu.pc).1
      let bytes := machine.bus.transfers (machine.ownTraffic instruction.mode)
      let fetched := machine.behindOpcode.fetchOperand instruction.mode
      ∃ byte,
        (traceLine machine).toList = columns instruction machine.cpu bytes
          (shownOperand instruction machine.cpu.toRegisters bytes fetched.1.address byte) ∧
        (instruction.mode.inPageZero = true → fetched.1.address < 0x100) ∧
        (machine.bus.Driven fetched.1.address →
          byte = (machine.read fetched.1.address).1 ∧
            byte = (fetched.2.read fetched.1.address).1)) ∧
    (∀ machine : Machine β,
      match machine.stepInstruction with
      | .ok _ next =>
        next.bus = machine.bus.accessAll machine.instructionTraffic ∧
          machine.ownTraffic (decode (machine.read machine.cpu.pc).1).mode <+:
            machine.instructionTraffic
      | .error _ next => next.bus = machine.bus.accessAll [.read machine.cpu.pc]) ∧
    ∀ (machine : Machine β) (mode : AddressingMode),
      (machine.fetchOperand mode).2.cpu.pc = machine.cpu.pc + .ofNat mode.operandSize := by
  refine ⟨log_applyAll hTracing, fun hKeeps moves => ?_, Machine.step_eq,
    Machine.toList_line_fetched, Machine.reads_stepInstruction, Machine.pc_fetchOperand⟩
  rw [log_applyAll hTracing, Log.addAll_of_keeps hKeeps]

/-- A console before an instruction that wraps everywhere: its opcode is at the last address, its
pointer at the end of page zero, and the index carries the operand past the last address. -/
def wrapped : Console Nrom where
  cpu := { pc := 0xffff, y := 0xf0 }
  bus :=
    let cartridge : Cartridge Nrom := { board := ⟨⟨#[0xb1], #[], #[], false, .horizontal⟩⟩ }
    (({ video := { cartridge } : Bus Nrom }.write 0x0000 0xff).write 0x00ff 0x34).write 0x0024 0x5a
  tracing := true
  log := { threshold := .trace }

/-- The line of the step, and none for the reset behind it. -/
theorem trace_agrees_wrapped :
    wrapped.tracing = true ∧ wrapped.log.keeps .trace = true ∧
    wrapped.toMachine.Shows (decode (wrapped.bus.peek wrapped.cpu.pc)).mode ∧
    (wrapped.toMachine.behindOpcode.fetchOperand .indirectY).1.address = 0x0024 ∧
    wrapped.bus.Driven 0x0024 ∧
    (wrapped.applyAll [.step, .reset, .step]).log.records =
      ((wrapped.lines [.step, .reset, .step]).map (Record.mk .trace)).toArray ∧
    (wrapped.lines [.step, .reset, .step]).length = 1 ∧
    (traceLine wrapped.toMachine).toList = columns (decode 0xb1) wrapped.cpu [0xb1, 0xff]
      (shownOperand (decode 0xb1) wrapped.cpu.toRegisters [0xb1, 0xff] 0x0024 0x5a) ∧
    traceLine wrapped.toMachine =
      "FFFF  B1 FF     LDA ($FF),Y = FF34 @ 0024 = 5A  A:00 X:00 Y:F0 P:24 SP:00" := by
  obtain ⟨-, hRecords, -, hLines, -, -⟩ := trace_agrees wrapped rfl
  have hShows : wrapped.toMachine.Shows (decode (wrapped.bus.peek wrapped.cpu.pc)).mode := by
    have hMode : (decode (wrapped.bus.peek wrapped.cpu.pc)).mode = .indirectY := by decide
    have hOwn : ownAddresses .indirectY wrapped.cpu.pc = [0xffff, 0x0000] := by decide
    rw [hMode]
    refine ⟨fun address hAddress => ?_, fun pointer hPointer => ?_⟩
    · rw [hOwn, List.mem_cons, List.mem_singleton] at hAddress
      obtain rfl | rfl := hAddress <;> decide
    · have hEnd : pointer = 0x00ff := Option.some.inj (hPointer.symm.trans (by decide))
      rw [hEnd]
      decide
  have hOpcode : (wrapped.toMachine.read wrapped.cpu.pc).1 = 0xb1 := by decide
  have hBytes : wrapped.bus.transfers (wrapped.toMachine.ownTraffic (decode 0xb1).mode) =
      [0xb1, 0xff] := by decide
  have hAddress :
      (wrapped.toMachine.behindOpcode.fetchOperand (decode 0xb1).mode).1.address = 0x0024 := by
    decide
  have hDriven : wrapped.bus.Driven 0x0024 := by decide
  have hLine := hLines wrapped.toMachine hShows
  rw [hOpcode] at hLine
  simp only [hBytes, hAddress] at hLine
  obtain ⟨byte, hLine, -, hByte⟩ := hLine
  have hFound : byte = 0x5a := (hByte hDriven).1.trans (by decide)
  rw [hFound] at hLine
  refine ⟨rfl, rfl, hShows, hAddress, hDriven, hRecords rfl _, by decide, hLine, ?_⟩
  rw [← String.toList_inj, hLine]
  decide

end Console

end Nes
