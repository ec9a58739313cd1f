import Nes.Cartridge.InterruptLatch
import Nes.Proofs.Bus.SpriteTransfer
import Nes.Proofs.Console.Faults
import Nes.Proofs.Console.NmiDelivery
import Nes.Proofs.Cpu.Masking

/-! Interrupts that the cartridge requests. The processor samples the request at the end of each
step. It waits while interrupts are disabled, and otherwise the next step takes it. -/

namespace Nes

open Cpu

namespace Machine

variable {β : Type} [Board β]

/-- The end of a step writes to no memory of the processor. -/
theorem sameMemory_finishStep (machine : Machine β) (cycles : UInt64) :
    (machine.finishStep cycles).2.bus.SameMemory machine.bus := by
  have hDma : machine.runPendingDma.2.bus.SameMemory machine.bus := by
    simp only [runPendingDma, Bus.takeDma]
    split
    · exact ⟨rfl, rfl⟩
    · exact ⟨(Bus.sameMemory_copyToOam _ _ _).ram, (Bus.sameMemory_copyToOam _ _ _).video⟩
  exact ⟨hDma.ram, hDma.video⟩

/-- The end of a step keeps all registers, and samples the request. -/
theorem finishStep_keeps (machine : Machine β) (cycles : UInt64) :
    let finished := (machine.finishStep cycles).2
    finished.cpu.toRegisters = machine.cpu.toRegisters ∧ finished.bus.ram = machine.bus.ram ∧
      finished.cpu.irq = Board.irq finished.bus.video.cartridge.board := by
  have hRegisters : machine.runPendingDma.2.cpu.toRegisters = machine.cpu.toRegisters := by
    simp only [runPendingDma]
    split <;> rfl
  exact ⟨hRegisters, (machine.sameMemory_finishStep cycles).ram, rfl⟩

end Machine

namespace Console

variable {β : Type}

/-- Something happens to a console with a cartridge whose board may do anything between two
steps. -/
inductive Occurrence (β : Type) where
  | move (move : Move)
  /-- The board changes by itself, and maybe its request with it. -/
  | board (board : β)

def Occurrence.isStep : Occurrence β → Bool
  | .move .step => true
  | _ => false

variable [Board β]

def undergo (console : Console β) : Occurrence β → Console β
  | .move move => console.apply move
  | .board board => { console with bus.video.cartridge.board := board }

def undergoAll : Console β → List (Occurrence β) → Console β
  | console, [] => console
  | console, occurrence :: occurrences => (console.undergo occurrence).undergoAll occurrences

/-- The next step executes `CLI`, `PLP` or `RTI` and ends with interrupts enabled. -/
def Enables (console : Console β) : Prop :=
  console.cpu.takesInstruction = true ∧ console.mnemonic.mayEnable = true ∧
    ∃ total next, console.step = .ok total next ∧ next.cpu.flags.interruptDisable = false

/-- The request at the end of a step is what the processor goes by. -/
theorem irq_step {console next : Console β} {total : UInt64}
    (hStep : console.step = .ok total next) :
    next.cpu.irq = Board.irq next.bus.video.cartridge.board := by
  obtain ⟨cycles, machine, -, -, hNext⟩ := step_ok hStep
  rw [hNext]
  exact (machine.finishStep_keeps cycles).2.2

/-- A step leaves the flag as its instruction says, or sets it. -/
theorem interruptDisable_step {console next : Console β} {total : UInt64}
    (hStep : console.step = .ok total next) :
    next.cpu.flags.interruptDisable =
      if console.cpu.takesInstruction then
        console.mnemonic.disableAfter console.cpu.flags.interruptDisable console.top
      else true := by
  obtain ⟨cycles, machine, hMachine, -, hNext⟩ := step_ok hStep
  have hRegisters := (machine.finishStep_keeps cycles).1
  rw [← Machine.interruptDisable_step hMachine, hNext]
  exact congrArg (fun registers => registers.flags.interruptDisable) hRegisters

/-- A step that faults leaves the flag as it is. -/
theorem interruptDisable_step_error {console next : Console β} {fault : Fault}
    (hStep : console.step = .error fault next) :
    next.cpu.flags.interruptDisable = console.cpu.flags.interruptDisable := by
  obtain ⟨-, -, -, hNext⟩ := (Machine.step_eq_error_iff _ _ _).mp (step_error hStep)
  rw [hNext]
  rfl

/-- Interrupts that a step has enabled were enabled by its instruction. -/
theorem enables_of_step {console : Console β}
    (hDisabled : console.cpu.flags.interruptDisable = true)
    (hEnabled : (left console.step).cpu.flags.interruptDisable = false) : console.Enables := by
  cases hStep : console.step with
  | ok total next =>
      rw [hStep, left] at hEnabled
      have hFlag := interruptDisable_step hStep
      rw [hEnabled, hDisabled] at hFlag
      cases hTakes : console.cpu.takesInstruction with
      | true =>
          rw [hTakes, if_pos rfl] at hFlag
          exact ⟨hTakes, Mnemonic.mayEnable_of_disableAfter hFlag.symm, total, next, hStep,
            hEnabled⟩
      | false =>
          rw [hTakes] at hFlag
          cases hFlag
  | error fault next =>
      rw [hStep, left, interruptDisable_step_error hStep, hDisabled] at hEnabled
      cases hEnabled

/-- No occurrence enables interrupts, except for a step with an instruction that can do so. -/
theorem enables_of_undergo {console : Console β} {occurrence : Occurrence β}
    (hDisabled : console.cpu.flags.interruptDisable = true)
    (hEnabled : (console.undergo occurrence).cpu.flags.interruptDisable = false) :
    occurrence = .move .step ∧ console.Enables := by
  cases occurrence with
  | move move =>
      cases move with
      | step => exact ⟨rfl, enables_of_step hDisabled hEnabled⟩
      | reset | plug source | access access =>
          exact absurd (hDisabled.symm.trans hEnabled) (by decide)
  | board board => exact absurd (hDisabled.symm.trans hEnabled) (by decide)

/-- Interrupts that were disabled at the start of a run and are enabled at its end were enabled by a
step of the run. -/
theorem exists_enables {start : Console β} {occurrences : List (Occurrence β)}
    (hDisabled : start.cpu.flags.interruptDisable = true)
    (hEnabled : (start.undergoAll occurrences).cpu.flags.interruptDisable = false) :
    ∃ first rest, occurrences = first ++ .move .step :: rest ∧
      (start.undergoAll first).Enables := by
  induction occurrences generalizing start with
  | nil => exact absurd (hDisabled.symm.trans hEnabled) (by decide)
  | cons occurrence occurrences ih =>
      -- the flag is clear already behind the first occurrence, or the rest starts with it set
      cases hFlag : (start.undergo occurrence).cpu.flags.interruptDisable with
      | false =>
          obtain ⟨rfl, hEnables⟩ := enables_of_undergo hDisabled hFlag
          exact ⟨[], occurrences, rfl, hEnables⟩
      | true =>
          obtain ⟨first, rest, rfl, hEnables⟩ := ih hFlag hEnabled
          exact ⟨occurrence :: first, rest, rfl, hEnables⟩

/-- Between two steps nothing changes what the processor has sampled. -/
theorem irq_undergoAll {start : Console β} {occurrences : List (Occurrence β)}
    (hBetween : ∀ occurrence ∈ occurrences, occurrence.isStep = false) :
    (start.undergoAll occurrences).cpu.irq = start.cpu.irq := by
  induction occurrences generalizing start with
  | nil => rfl
  | cons occurrence occurrences ih =>
      obtain ⟨hHere, hRest⟩ := List.forall_mem_cons.mp hBetween
      refine (ih hRest).trans ?_
      cases occurrence with
      | move move =>
          cases move with
          | step => cases hHere
          | reset | plug source | access access => rfl
      | board board => rfl

/-- A request that was sampled waits for nothing but the flag, a reset and a non-maskable interrupt.
-/
theorem takesRequest_of_sampled {console next : Console β} {total : UInt64}
    (hStep : console.step = .ok total next)
    (hRequest : Board.irq next.bus.video.cartridge.board = true)
    {between : List (Occurrence β)} (hBetween : ∀ occurrence ∈ between, occurrence.isStep = false)
    (hEnabled : (next.undergoAll between).cpu.flags.interruptDisable = false)
    (hReset : (next.undergoAll between).cpu.resetPending = false)
    (hNmi : (next.undergoAll between).cpu.nmiPending = false) :
    (next.undergoAll between).TakesRequest := by
  have hSampled : (next.undergoAll between).cpu.irq = true := by
    rw [irq_undergoAll hBetween, irq_step hStep, hRequest]
  exact (Machine.takesRequest_iff _).mpr ⟨hReset, hNmi, hSampled, hEnabled⟩

/-- A non-maskable interrupt leaves the flags of the program on top of the stack. -/
theorem top_step_of_takesNmi {console entered : Console β} {total : UInt64}
    (hTakes : console.takesNmi = true) (hStep : console.step = .ok total entered) :
    entered.top = console.cpu.flags.toByte := by
  obtain ⟨cycles, machine, hMachine, -, hNext⟩ := step_ok hStep
  obtain ⟨hRegisters, hRam, -⟩ := machine.finishStep_keeps cycles
  rw [step_of_takesNmi hTakes] at hMachine
  injection hMachine with hCycles hInterrupt
  let taken : Machine β := { console.toMachine with cpu.nmiPending := false }
  calc entered.top = machine.top := by
        rw [hNext]
        exact Machine.top_congr (congrArg Registers.s hRegisters) hRam
    _ = (taken.interrupt nmiVector false).top := by
        rw [← hInterrupt]
        rfl
    _ = console.cpu.flags.toByte := by
        rw [Machine.top_interrupt]
        exact UInt8.or_zero

/-- Behind a step no reset is due. -/
theorem resetPending_step {console next : Console β} {total : UInt64}
    (hStep : console.step = .ok total next) : next.cpu.resetPending = false := by
  obtain ⟨cycles, machine, hMachine, -, hNext⟩ := step_ok hStep
  obtain ⟨-, -, -, -, hKept⟩ := finishStep_nmi machine cycles
  rw [hNext, hKept]
  exact (Machine.step_ok hMachine).2.2.1

/-- Requests of the cartridge are masked by the flag that disables interrupts. A reset or an
interrupt sets the flag, and an instruction leaves it as its mnemonic says. While it is set no step
takes a request, so between a time when it is set and a step that takes one there is a step that
executes `CLI`, `PLP` or `RTI` and leaves it clear. Once it is clear, a request that was sampled at
the end of a step is taken by the next one, unless a reset or a non-maskable interrupt is due. This
is so behind the routine of a non-maskable interrupt, if the program had interrupts enabled and the
saved status is on top of the stack at the end of the routine. -/
theorem requests_masked (β : Type) [Board β] :
    (∀ (console next : Console β) (total : UInt64), console.step = .ok total next →
      next.cpu.flags.interruptDisable =
        if console.cpu.takesInstruction then
          console.mnemonic.disableAfter console.cpu.flags.interruptDisable console.top
        else true) ∧
    (∀ (start : Console β) (occurrences : List (Occurrence β)),
      start.cpu.flags.interruptDisable = true →
      (start.undergoAll occurrences).TakesRequest →
      ∃ first rest, occurrences = first ++ .move .step :: rest ∧
        (start.undergoAll first).Enables) ∧
    (∀ (console next : Console β) (total : UInt64) (between : List (Occurrence β)),
      console.step = .ok total next → Board.irq next.bus.video.cartridge.board = true →
      (∀ occurrence ∈ between, occurrence.isStep = false) →
      let later := next.undergoAll between
      later.cpu.flags.interruptDisable = false → later.cpu.resetPending = false →
      later.cpu.nmiPending = false → later.TakesRequest) ∧
    ∀ (program entered handler next : Console β) (total last : UInt64),
      program.takesNmi = true → program.cpu.flags.interruptDisable = false →
      program.step = .ok total entered →
      handler.cpu.takesInstruction = true → handler.mnemonic = .rti →
      handler.top = entered.top → handler.step = .ok last next →
      Board.irq next.bus.video.cartridge.board = true → next.cpu.nmiPending = false →
      next.TakesRequest := by
  refine ⟨fun console next total => interruptDisable_step, ?_, ?_, ?_⟩
  · intro start occurrences hDisabled hTakes
    exact exists_enables hDisabled ((Machine.takesRequest_iff _).mp hTakes).2.2.2
  · intro console next total between hStep hRequest hBetween later hEnabled hReset hNmi
    exact takesRequest_of_sampled hStep hRequest hBetween hEnabled hReset hNmi
  · intro program entered handler next total last hTakes hEnabled hEntered hReturns hMnemonic hTop
      hStep hRequest hNmi
    have hStatus : handler.top = program.cpu.flags.toByte :=
      hTop.trans (top_step_of_takesNmi hTakes hEntered)
    have hClear : next.cpu.flags.interruptDisable = false := by
      rw [interruptDisable_step hStep, if_pos hReturns, hMnemonic, hStatus, Mnemonic.disableAfter,
        Flags.ofByte_toByte, hEnabled]
    have hNone : ∀ occurrence ∈ ([] : List (Occurrence β)), occurrence.isStep = false := by
      intro occurrence hMem
      cases hMem
    exact takesRequest_of_sampled hStep hRequest hNone hClear (resetPending_step hStep) hNmi

/-- A program whose cartridge requests an interrupt while a non-maskable one is due. The routine of
the latter is a single `RTI` at `$8000`. -/
def interrupted : Console (InterruptLatch Nrom) where
  cpu := { pc := 0x0200, s := 0xff, flags := {}, nmiPending := true }
  bus :=
    let rom := #[0x40, 0x00, 0x00, 0x00, 0x00, 0x00, 0x00, 0x00,
      0x00, 0x00, 0x00, 0x80, 0x00, 0x00, 0x00, 0x90]
    let latch : InterruptLatch Nrom :=
      { board := ⟨⟨rom, #[], #[], false, .horizontal⟩⟩, requested := true }
    { video := { cartridge := { board := latch } } }

/-- The request waits for the end of the routine, and the step behind it goes to the routine of the
request. -/
theorem requests_masked_interrupted :
    let entered := left interrupted.step
    let next := left entered.step
    (∃ total, interrupted.step = .ok total entered) ∧ (∃ last, entered.step = .ok last next) ∧
      entered.cpu.flags.interruptDisable = true ∧ entered.Enables ∧ next.TakesRequest ∧
      (left next.step).cpu.pc = 0x9000 := by
  intro entered next
  obtain ⟨hFlag, hMasked, -, hReturned⟩ := requests_masked (InterruptLatch Nrom)
  have hFirst : (decode (interrupted.bus.read interrupted.cpu.pc).1).effect?.isSome = true := by
    decide +kernel
  have hSecond : (decode (entered.bus.read entered.cpu.pc).1).effect?.isSome = true := by
    decide +kernel
  obtain ⟨total, hEntered⟩ := exists_step hFirst
  obtain ⟨last, hStep⟩ := exists_step hSecond
  have hDisabled : entered.cpu.flags.interruptDisable = true := hFlag _ _ _ hEntered
  have hInstruction : entered.cpu.takesInstruction = true := by decide +kernel
  have hReturns : entered.mnemonic = .rti := by decide +kernel
  have hRequest : Board.irq next.bus.video.cartridge.board = true := by decide +kernel
  have hNmi : next.cpu.nmiPending = false := by decide +kernel
  have hTakes : next.TakesRequest :=
    hReturned interrupted entered entered next total last rfl rfl hEntered hInstruction hReturns rfl
      hStep hRequest hNmi
  obtain ⟨first, rest, hSplit, hEnables⟩ := hMasked entered [.move .step] hDisabled hTakes
  obtain ⟨rfl, -⟩ : first = [] ∧ rest = [] := by
    cases first with
    | nil => exact ⟨rfl, (List.cons.inj hSplit).2.symm⟩
    | cons occurrence first => simp at hSplit
  exact ⟨⟨total, hEntered⟩, ⟨last, hStep⟩, hDisabled, hEnables, hTakes, by decide +kernel⟩

end Console

end Nes
