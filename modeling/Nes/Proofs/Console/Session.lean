import Nes.Console.Run
import Nes.Proofs.Cpu.Traffic

/-! Sessions with a console: any order of steps, longer runs, resets, changes of controllers and
accesses to the bus. A session is traced down to single moves, and each move down to what it does to
the picture unit. -/

namespace Nes

open Cpu Bus
open Ppu (Action)

namespace Machine

variable {β : Type} [Board β]

/-- What a pending sprite transfer does to the picture unit. -/
def dmaActivity (machine : Machine β) : List Action :=
  match machine.bus.dmaPage with
  | none => []
  | some page =>
    let bus := machine.bus.takeDma.2
    bus.activity (bus.copyTraffic (page.toUInt16 <<< 8) 256)

/-- What the end of a step does to the picture unit, given the cycles up to it. -/
def finishActivity (machine : Machine β) (cycles : UInt64) : List Action :=
  let ready := machine.runPendingDma
  machine.dmaActivity ++
    (List.replicate (3 * (cycles + ready.1).toNat) (.dot ready.2.bus.video.read) ++ [.poll])

/-- A transfer stops the processor for 513 or 514 cycles, and nothing stops it without one. -/
theorem runPendingDma_stall (machine : Machine β) :
    machine.runPendingDma.2.cpu.cycles = machine.cpu.cycles + machine.runPendingDma.1 ∧
      if machine.bus.dmaPage.isSome then
        513 ≤ machine.runPendingDma.1.toNat ∧ machine.runPendingDma.1.toNat ≤ 514
      else machine.runPendingDma.1 = 0 := by
  cases hPage : machine.bus.dmaPage with
  | none =>
      simp only [runPendingDma, takeDma, hPage]
      refine ⟨(UInt64.add_zero _).symm, ?_⟩
      simp
  | some page =>
      simp only [runPendingDma, takeDma, hPage]
      refine ⟨rfl, ?_⟩
      simp only [Option.isSome_some, if_true, runDma, dmaCycles]
      split <;> decide

/-- A transfer reaches the picture unit as a number of writes. -/
theorem ppu_runPendingDma (machine : Machine β) :
    machine.runPendingDma.2.bus.ppu = machine.bus.ppu.execute machine.dmaActivity := by
  cases hPage : machine.bus.dmaPage with
  | none =>
      simp only [dmaActivity, runPendingDma, takeDma, hPage]
      rfl
  | some page =>
      have hCopy := ppu_accessAll machine.bus.takeDma.2
        (machine.bus.takeDma.2.copyTraffic (page.toUInt16 <<< 8) 256)
      rw [accessAll_copyTraffic] at hCopy
      simp only [dmaActivity, runPendingDma, hPage, takeDma]
      exact hCopy

/-- The end of a step reaches the picture unit as a transfer, dots and a poll. -/
theorem ppu_finishStep (machine : Machine β) (cycles : UInt64) :
    (machine.finishStep cycles).2.bus.ppu =
      machine.bus.ppu.execute (machine.finishActivity cycles) := by
  simp only [finishStep, finishActivity, sampleInterrupts, runPpu, Bus.runPpu]
  rw [Ppu.execute_append, Ppu.execute_append, ← ppu_runPendingDma, Ppu.execute_replicate_dot]
  rfl

/-- A transfer passes no time for the picture unit, and does not poll it. -/
theorem not_dot_of_mem_dmaActivity {machine : Machine β} {action : Action}
    (hAction : action ∈ machine.dmaActivity) : action.isDot = false ∧ action.isPoll = false := by
  rw [dmaActivity] at hAction
  split at hAction
  · cases hAction
  · exact not_dot_of_mem_activity hAction

end Machine

namespace Console

variable {β : Type} [Board β]

/-- The console that a run leaves, whether it ends with a result or with a fault. -/
def left {α : Type} : EStateM.Result Fault (Console β) α → Console β
  | .ok _ console => console
  | .error _ console => console

/-- One thing that a session does to a console. -/
inductive Move where
  | step
  | reset
  /-- Plugs in controllers, or takes them away. -/
  | plug (source : Option (Nat → Pads))
  | access (access : Access)

def apply (console : Console β) : Move → Console β
  | .step => left console.step
  | .reset => console.reset
  | .plug source => { console with bus.controllers.source := source }
  | .access access => { console with bus := console.bus.access access }

def applyAll : Console β → List Move → Console β
  | console, [] => console
  | console, move :: moves => (console.apply move).applyAll moves

/-- Everything that a session can ask for. -/
inductive Operation where
  | move (move : Move)
  | runFrame
  | runCycles (cycles : UInt64)

def operate (console : Console β) : Operation → Console β
  | .move move => console.apply move
  | .runFrame => left (console.runFrame)
  | .runCycles cycles => left (console.runCycles cycles)

def operateAll : Console β → List Operation → Console β
  | console, [] => console
  | console, operation :: operations => (console.operate operation).operateAll operations

/-- How many steps a run takes until its condition holds, its limit is reached or a step faults. -/
def stepsTaken (done : Console β → Bool) : (limit : Nat) → Console β → Nat
  | 0, _ => 0
  | limit + 1, console =>
    if done console then 0
    else
      match console.step with
      | .ok _ next => stepsTaken done limit next + 1
      | .error _ _ => 1

def movesOf (console : Console β) : Operation → List Move
  | .move move => [move]
  | .runFrame =>
    let target := console.bus.ppu.beam.frames + 1
    let done (console : Console β) := decide (target ≤ console.bus.ppu.beam.frames)
    List.replicate (stepsTaken done dotsPerFrame console) .step
  | .runCycles cycles =>
    let target := console.cpu.cycles + cycles
    let done (console : Console β) := decide (target ≤ console.cpu.cycles)
    List.replicate (stepsTaken done cycleCounts console) .step

def allMoves : Console β → List Operation → List Move
  | _, [] => []
  | console, operation :: operations =>
    console.movesOf operation ++ (console.operate operation).allMoves operations

/-- What a step does to the picture unit. -/
def stepActivity (console : Console β) : List Action :=
  console.bus.activity console.toMachine.traffic ++
    match console.toMachine.step with
    | .ok cycles machine => machine.finishActivity cycles
    | .error _ _ => []

def activityOf (console : Console β) : Move → List Action
  | .step => console.stepActivity
  | .reset | .plug _ => []
  | .access access => console.bus.actionsOf access

def activity : Console β → List Move → List Action
  | _, [] => []
  | console, move :: moves => console.activityOf move ++ (console.apply move).activity moves

@[simp] theorem toMachine_trace (console : Console β) :
    console.trace.toMachine = console.toMachine := by
  rw [trace]
  split <;> rfl

theorem applyAll_append (console : Console β) (first second : List Move) :
    console.applyAll (first ++ second) = (console.applyAll first).applyAll second := by
  induction first generalizing console with
  | nil => rfl
  | cons move first ih => exact ih (console.apply move)

/-- A run to a condition is a number of steps. -/
theorem left_stepUntil (done : Console β → Bool) (limit : Nat) (console : Console β) :
    left (stepUntil done limit console) =
      console.applyAll (List.replicate (stepsTaken done limit console) .step) := by
  induction limit generalizing console with
  | zero => rfl
  | succ limit ih =>
      by_cases hDone : done console
      · simp only [stepUntil, stepsTaken, if_pos hDone]
        rfl
      · simp only [stepUntil, stepsTaken, if_neg hDone]
        cases hStep : console.step with
        | ok total next =>
            simp only [List.replicate_succ, applyAll, apply, hStep]
            exact ih next
        | error fault next =>
            simp only [List.replicate_one, applyAll, apply, hStep]
            rfl

omit [Board β] in
theorem left_discard {α : Type} (run : EStateM Fault (Console β) α) (console : Console β) :
    left ((discard run : EStateM Fault (Console β) Unit) console) = left (run console) := by
  simp only [discard, Functor.mapConst, EStateM.map, Function.comp]
  cases run console <;> rfl

/-- An operation consists of its single moves. -/
theorem operate_eq_applyAll (console : Console β) (operation : Operation) :
    console.operate operation = console.applyAll (console.movesOf operation) := by
  cases operation with
  | move move => rfl
  | runFrame => exact (left_discard _ _).trans (left_stepUntil _ _ _)
  | runCycles cycles => exact left_stepUntil _ _ _

/-- A session consists of its single moves. -/
theorem operateAll_eq_applyAll (console : Console β) (operations : List Operation) :
    console.operateAll operations = console.applyAll (console.allMoves operations) := by
  induction operations generalizing console with
  | nil => rfl
  | cons operation operations ih =>
      rw [operateAll, allMoves, applyAll_append, ih, ← operate_eq_applyAll]

/-- The processor's part of a step, and what follows it. -/
theorem step_ok {console next : Console β} {total : UInt64}
    (hStep : console.step = .ok total next) :
    ∃ cycles machine, console.toMachine.step = .ok cycles machine ∧
      total = cycles + machine.runPendingDma.1 ∧
      next.toMachine = (machine.finishStep cycles).2 := by
  simp only [step, toMachine_trace] at hStep
  split at hStep
  · cases hStep
  · rename_i cycles machine hMachine
    injection hStep with hTotal hNext
    exact ⟨cycles, machine, hMachine, hTotal.symm, hNext ▸ rfl⟩

/-- A step faults if the processor does. -/
theorem step_error {console next : Console β} {fault : Fault}
    (hStep : console.step = .error fault next) :
    console.toMachine.step = .error fault next.toMachine := by
  simp only [step, toMachine_trace] at hStep
  split at hStep
  · rename_i machineFault machine hMachine
    injection hStep with hFault hNext
    rw [hMachine, hFault, ← hNext]
  · cases hStep

/-- The picture unit behind a step is that behind the activity of the step. -/
theorem ppu_step (console : Console β) :
    (left console.step).bus.ppu = console.bus.ppu.execute console.stepActivity := by
  rw [stepActivity, Ppu.execute_append]
  cases hStep : console.step with
  | ok total next =>
      obtain ⟨cycles, machine, hMachine, -, hNext⟩ := step_ok hStep
      rw [hMachine, left, hNext, Machine.ppu_finishStep, (Machine.step_ok hMachine).1,
        ppu_accessAll]
  | error fault next =>
      have hMachine := step_error hStep
      obtain ⟨hTraffic, hWork, -⟩ := Machine.step_error hMachine
      rw [hMachine, left, hWork.bus, hTraffic, ppu_accessAll]
      rfl

/-- The picture unit behind a move is that behind the activity of the move. -/
theorem ppu_apply (console : Console β) (move : Move) :
    (console.apply move).bus.ppu = console.bus.ppu.execute (console.activityOf move) := by
  cases move with
  | step => exact ppu_step console
  | reset => rfl
  | plug source => rfl
  | access access => exact ppu_access console.bus access

/-- The picture unit after a number of moves is that after their activity. -/
theorem ppu_applyAll (console : Console β) (moves : List Move) :
    (console.applyAll moves).bus.ppu = console.bus.ppu.execute (console.activity moves) := by
  induction moves generalizing console with
  | nil => rfl
  | cons move moves ih =>
      rw [applyAll, activity, Ppu.execute_append, ih, ppu_apply]

end Console

end Nes
