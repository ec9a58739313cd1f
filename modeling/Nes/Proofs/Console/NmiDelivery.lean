import Nes.Proofs.Console.Lockstep
import Nes.Proofs.Ppu.BlankCount

/-! Interrupts of the picture unit on their way to the processor. None is lost and none is taken
twice. -/

namespace Nes.Console

open Cpu Bus
open Ppu (Action Moment LineRaised BlankInWindow)

variable {β : Type} [Board β]

/-- The next step takes a non-maskable interrupt. -/
def takesNmi (console : Console β) : Bool :=
  !console.cpu.resetPending && console.cpu.nmiPending

/-- What may happen in a run without a reset. Controllers and tracing change between two steps. -/
inductive RunMove where
  | step
  /-- Plugs in controllers, or takes them away. -/
  | plug (source : Option (Nat → Pads))
  | trace (enabled : Bool)

def RunMove.isStep : RunMove → Bool
  | .step => true
  | .plug _ | .trace _ => false

def advance (console : Console β) : RunMove → Console β
  | .step => left console.step
  | .plug source => { console with bus.controllers.source := source }
  | .trace enabled => { console with tracing := enabled }

def advanceAll : Console β → List RunMove → Console β
  | console, [] => console
  | console, move :: moves => (console.advance move).advanceAll moves

/-- What a move of a run does to the picture unit. -/
def advanceActivity (console : Console β) : RunMove → List Action
  | .step => console.stepActivity
  | .plug _ | .trace _ => []

def runActivity : Console β → List RunMove → List Action
  | _, [] => []
  | console, move :: moves =>
    console.advanceActivity move ++ (console.advance move).runActivity moves

/-- How many non-maskable interrupts the processor takes in a run. -/
def nmisTaken : Console β → List RunMove → Nat
  | _, [] => 0
  | console, move :: moves =>
    (move.isStep && console.takesNmi).toNat + (console.advance move).nmisTaken moves

/-- What is known of a console between two steps: the last poll has left no interrupt behind, and
one that the processor has not taken yet does not have to wait for a reset. -/
structure Settled (console : Console β) : Prop where
  line : LineRaised console.bus.ppu
  window : BlankInWindow console.bus.ppu
  polled : console.bus.ppu.nmi.pending = false
  reset : console.cpu.resetPending = true → console.cpu.nmiPending = false

/-- Nothing but the non-maskable interrupt decides whether the step takes it. -/
theorem step_of_takesNmi {console : Console β} (hTakes : console.takesNmi = true) :
    console.toMachine.step = .ok interruptCycles
      (({ console.toMachine with cpu.nmiPending := false }.interrupt nmiVector false).spend
        interruptCycles) := by
  rw [takesNmi, Bool.and_eq_true, Bool.not_eq_true'] at hTakes
  rw [Machine.step, if_neg (Bool.eq_false_iff.mp hTakes.1), if_pos hTakes.2]

omit [Board β] in
/-- Between two steps a pending interrupt waits for nothing else. -/
theorem Settled.takesNmi_eq {console : Console β} (hSettled : Settled console) :
    console.takesNmi = console.cpu.nmiPending := by
  rw [takesNmi]
  cases hReset : console.cpu.resetPending with
  | false => rfl
  | true => rw [hSettled.reset hReset, Bool.and_false]

omit [Board β] in
/-- Nothing is pending when a console is switched on. -/
theorem settled_powerOn (cartridge : Cartridge β) (log : Log) :
    Settled { powerOn cartridge with log } where
  line := Ppu.lineRaised_powerOn
  window := Ppu.blankInWindow_powerOn
  polled := rfl
  reset := fun _ => rfl

/-- The dots and the transfer at the end of a step, before the poll. -/
theorem finishStep_nmi (machine : Machine β) (cycles : UInt64) :
    ∃ actions, machine.finishActivity cycles = actions ++ [.poll] ∧
      (∀ action ∈ actions, action.isPoll = false) ∧
      (machine.finishStep cycles).2.cpu.nmiPending =
        (machine.cpu.nmiPending || (machine.bus.ppu.execute actions).nmi.pending) ∧
      (machine.finishStep cycles).2.cpu.resetPending = machine.cpu.resetPending := by
  refine ⟨_, (List.append_assoc _ _ _).symm, ?_, ?_, ?_⟩
  · intro action hAction
    rw [List.mem_append, List.mem_replicate] at hAction
    cases hAction with
    | inl hDma => exact (Machine.not_dot_of_mem_dmaActivity hDma).2
    | inr hDot =>
        rw [hDot.2]
        rfl
  · have hKept : machine.runPendingDma.2.cpu.nmiPending = machine.cpu.nmiPending := by
      simp only [Machine.runPendingDma, takeDma]
      split <;> rfl
    rw [Ppu.execute_append, ← Machine.ppu_runPendingDma, Ppu.execute_replicate_dot, ← hKept]
    rfl
  · have hKept : machine.runPendingDma.2.cpu.resetPending = machine.cpu.resetPending := by
      simp only [Machine.runPendingDma, takeDma]
      split <;> rfl
    rw [← hKept]
    rfl

/-- A step that faults raises nothing. -/
theorem countP_raises_of_step_error {console next : Console β} {fault : Fault}
    (hPolled : console.bus.ppu.nmi.pending = false) (hStep : console.step = .error fault next) :
    (console.bus.ppu.moments console.stepActivity).countP Moment.raises = 0 ∧
      next.bus.ppu.nmi.pending = false := by
  have hMachine := step_error hStep
  obtain ⟨hTraffic, -, -⟩ := Machine.step_error hMachine
  have hActivity : console.stepActivity = console.bus.activity [.read console.cpu.pc] := by
    rw [stepActivity, hMachine, hTraffic, List.append_nil]
  have hPpu : next.bus.ppu = console.bus.ppu.execute console.stepActivity := by
    rw [← ppu_step, hStep, left]
  rw [hPpu, hActivity, Bus.activity, Bus.activity, List.append_nil, actionsOf]
  cases registerAt? console.cpu.pc with
  | none => exact ⟨rfl, hPolled⟩
  | some register =>
      constructor
      · rw [Option.map_some, Option.toList_some, Ppu.moments_cons, Ppu.moments_nil,
          List.countP_singleton, Moment.raises, Ppu.apply, Ppu.nmi_read]
        rfl
      · rw [Option.map_some, Option.toList_some, Ppu.execute_cons, Ppu.execute_nil, Ppu.apply,
          Ppu.nmi_read, hPolled]

/-- A step raises an interrupt once at most, and hands it to the processor. -/
theorem Settled.raises_step_ok {console next : Console β} {total : UInt64}
    (hSettled : Settled console) (hStep : console.step = .ok total next) :
    (console.bus.ppu.moments console.stepActivity).countP Moment.raises =
        next.cpu.nmiPending.toNat ∧
      next.bus.ppu.nmi.pending = false ∧ next.cpu.resetPending = false := by
  obtain ⟨cycles, machine, hMachine, -, hNext⟩ := step_ok hStep
  obtain ⟨hBus, -, hReset, hNmi, -⟩ := Machine.step_ok hMachine
  obtain ⟨actions, hFinish, hPolls, hPending, hKept⟩ := finishStep_nmi machine cycles
  let before := console.bus.activity console.toMachine.traffic ++ actions
  have hActivity : console.stepActivity = before ++ [.poll] := by
    rw [stepActivity, hMachine, List.append_assoc, ← hFinish]
  have hBefore : ∀ action ∈ before, action.isPoll = false := by
    intro action hAction
    rw [List.mem_append] at hAction
    cases hAction with
    | inl hAccess => exact (not_dot_of_mem_activity hAccess).2
    | inr hRest => exact hPolls action hRest
  have hDots : Action.dots before ≤ 1566 := by
    have hAll := dots_stepActivity_ok hStep
    have hMost := total_le hStep
    rw [hActivity, Action.dots_append] at hAll
    omega
  have hPpu : machine.bus.ppu.execute actions = console.bus.ppu.execute before := by
    rw [hBus, ppu_accessAll, ← Ppu.execute_append]
  refine ⟨?_, ?_, ?_⟩
  · have hCount := Ppu.countP_raises_eq_pending hSettled.line hSettled.window hSettled.polled
      hDots hBefore
    have hNextPending : next.cpu.nmiPending = (console.bus.ppu.execute before).nmi.pending := by
      rw [hNext, hPending, hNmi, Bool.false_or, hPpu]
    rw [hActivity, Ppu.moments_append, List.countP_append, hCount, hNextPending]
    rfl
  · have hStepped := ppu_step console
    rw [hStep, left, hActivity, Ppu.execute_append] at hStepped
    rw [hStepped]
    rfl
  · rw [hNext, hKept, hReset]

/-- A step settles all accounts again: what it raises is what the processor has yet to take, in
place of what it has taken. -/
theorem Settled.step {console : Console β} (hSettled : Settled console) :
    Settled (left console.step) ∧
      console.takesNmi.toNat + (left console.step).cpu.nmiPending.toNat =
        console.cpu.nmiPending.toNat +
          (console.bus.ppu.moments console.stepActivity).countP Moment.raises := by
  have hPpu := ppu_step console
  have hLine : LineRaised (left console.step).bus.ppu := by
    rw [hPpu]
    exact Ppu.execute_induction Ppu.lineRaised_apply hSettled.line _
  have hWindow : BlankInWindow (left console.step).bus.ppu := by
    rw [hPpu]
    exact Ppu.execute_induction Ppu.blankInWindow_apply hSettled.window _
  rw [hSettled.takesNmi_eq]
  cases hStep : console.step with
  | ok total next =>
      rw [hStep] at hLine hWindow
      obtain ⟨hRaises, hPolled, hReset⟩ := hSettled.raises_step_ok hStep
      refine ⟨⟨hLine, hWindow, hPolled, ?_⟩, ?_⟩
      · intro h
        exact absurd (hReset.symm.trans h) Bool.false_ne_true
      · rw [hRaises]
        rfl
  | error fault next =>
      rw [hStep] at hLine hWindow
      obtain ⟨hRaises, hPolled⟩ := countP_raises_of_step_error hSettled.polled hStep
      obtain ⟨-, hWork, hReset, hNmi⟩ := Machine.step_error (step_error hStep)
      have hNextReset : next.cpu.resetPending = false := hWork.resetPending.trans hReset
      have hNextNmi : next.cpu.nmiPending = false := hWork.nmiPending.trans hNmi
      refine ⟨⟨hLine, hWindow, hPolled, fun _ => hNextNmi⟩, ?_⟩
      rw [hRaises, left, hNextNmi, hNmi]
      rfl

/-- An interrupt that is raised in a step is taken by the next one. -/
theorem Settled.takesNmi_of_raises {console : Console β} (hSettled : Settled console)
    {moment : Moment} (hMoment : moment ∈ console.bus.ppu.moments console.stepActivity)
    (hRaises : moment.raises = true) : (left console.step).takesNmi = true := by
  obtain ⟨hNext, hStep⟩ := hSettled.step
  have hSome : 0 < (console.bus.ppu.moments console.stepActivity).countP Moment.raises :=
    List.countP_pos_iff.mpr ⟨moment, hMoment, hRaises⟩
  rw [hSettled.takesNmi_eq] at hStep
  rw [hNext.takesNmi_eq]
  cases hPending : (left console.step).cpu.nmiPending with
  | true => rfl
  | false =>
      rw [hPending, Bool.toNat_false] at hStep
      omega

/-- No change between two steps lets an interrupt go. -/
theorem takesNmi_advanceAll {console : Console β} {between : List RunMove}
    (hBetween : ∀ move ∈ between, move.isStep = false) :
    (console.advanceAll between).takesNmi = console.takesNmi := by
  induction between generalizing console with
  | nil => rfl
  | cons move between ih =>
      rw [List.forall_mem_cons] at hBetween
      rw [advanceAll, ih hBetween.2]
      cases move with
      | step => cases hBetween.1
      | plug source => rfl
      | trace enabled => rfl

theorem ppu_advance (console : Console β) (move : RunMove) :
    (console.advance move).bus.ppu = console.bus.ppu.execute (console.advanceActivity move) := by
  cases move with
  | step => exact ppu_step console
  | plug source => rfl
  | trace enabled => rfl

/-- The picture unit after a run is that after the activity of the run. -/
theorem ppu_advanceAll (console : Console β) (moves : List RunMove) :
    (console.advanceAll moves).bus.ppu = console.bus.ppu.execute (console.runActivity moves) := by
  induction moves generalizing console with
  | nil => rfl
  | cons move moves ih => rw [advanceAll, runActivity, Ppu.execute_append, ih, ppu_advance]

/-- Every move of a run settles all accounts, as a step does. -/
theorem Settled.advance {console : Console β} (hSettled : Settled console) (move : RunMove) :
    Settled (console.advance move) ∧
      (move.isStep && console.takesNmi).toNat + (console.advance move).cpu.nmiPending.toNat =
        console.cpu.nmiPending.toNat +
          (console.bus.ppu.moments (console.advanceActivity move)).countP Moment.raises := by
  cases move with
  | step => exact hSettled.step
  | plug source =>
      exact ⟨⟨hSettled.line, hSettled.window, hSettled.polled, hSettled.reset⟩, Nat.zero_add _⟩
  | trace enabled =>
      exact ⟨⟨hSettled.line, hSettled.window, hSettled.polled, hSettled.reset⟩, Nat.zero_add _⟩

/-- A run from a settled console takes what was pending at its start and what it has raised, except
for what is pending at its end. -/
theorem Settled.advanceAll {console : Console β} (hSettled : Settled console)
    (moves : List RunMove) :
    Settled (console.advanceAll moves) ∧
      console.nmisTaken moves + (console.advanceAll moves).cpu.nmiPending.toNat =
        console.cpu.nmiPending.toNat +
          (console.bus.ppu.moments (console.runActivity moves)).countP Moment.raises := by
  induction moves generalizing console with
  | nil => exact ⟨hSettled, Nat.zero_add _⟩
  | cons move moves ih =>
      obtain ⟨hNext, hFirst⟩ := hSettled.advance move
      obtain ⟨hEnd, hRest⟩ := ih hNext
      refine ⟨hEnd, ?_⟩
      rw [runActivity, Ppu.moments_append, List.countP_append, ← ppu_advance, nmisTaken,
        Console.advanceAll]
      omega

/-- Between the picture unit and the processor no interrupt is lost and none is duplicated. After
any run from power on, in which controllers and tracing may change between the steps, the interrupts
that the processor has taken and the one that it is about to take are as many as the vertical
blankings with a moment at which the interrupt line was active, which is so behind their first dot
or behind a write to the control register inside them. An interrupt that is raised in a step is
taken by the step behind it, whatever the flags of the processor and the interrupt request line are.
-/
theorem nmi_delivered (cartridge : Cartridge β) (log : Log) (moves : List RunMove) :
    let start := { powerOn cartridge with log }
    let console := start.advanceAll moves
    let history := ({} : Ppu).moments (start.runActivity moves)
    console.bus.ppu = ({} : Ppu).execute (start.runActivity moves) ∧
      start.nmisTaken moves + console.cpu.nmiPending.toNat =
        Moment.blanksWith Moment.active history ∧
      Moment.blanksWith Moment.active history = Moment.blanksWith Moment.activates history ∧
      ∀ moment ∈ console.bus.ppu.moments console.stepActivity, moment.raises = true →
        ∀ between : List RunMove, (∀ move ∈ between, move.isStep = false) →
          let later := (left console.step).advanceAll between
          later.takesNmi = true ∧
          later.toMachine.step = .ok interruptCycles
            (({ later.toMachine with cpu.nmiPending := false }.interrupt nmiVector false).spend
              interruptCycles) := by
  intro start console history
  obtain ⟨hSettled, hCount⟩ := (settled_powerOn cartridge log).advanceAll moves
  refine ⟨ppu_advanceAll start moves, ?_, Ppu.blanksWith_active {} _, ?_⟩
  · refine hCount.trans ((Nat.zero_add _).trans ?_)
    exact Ppu.countP_raises_powerOn _
  · intro moment hMoment hRaises between hBetween later
    have hTakes : later.takesNmi = true :=
      (takesNmi_advanceAll hBetween).trans (hSettled.takesNmi_of_raises hMoment hRaises)
    exact ⟨hTakes, step_of_takesNmi hTakes⟩

end Nes.Console
