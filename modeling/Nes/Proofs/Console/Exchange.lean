import Nes.Proofs.Console.Session
import Nes.Proofs.Cpu.Exchange

/-! The console behind an exchange of the cartridge. Whatever is asked of it, it gives the same
answers, and it stays the console that it would have been but for the exchange. -/

namespace Nes

open Cpu Machine

namespace Console

variable {β : Type} [Board β]

/-- Everything that can be asked of a console. -/
inductive Request where
  | operation (operation : Operation)
  /-- Looks at the byte at an address. -/
  | peek (address : UInt16)
  /-- Switches the trace on or off. -/
  | trace (enabled : Bool)

/-- What a console gives back. -/
inductive Answer where
  | done
  | cycles (cycles : UInt64)
  | byte (value : UInt8)
  /-- Whether a run came to its target. -/
  | reached (reached : Bool)
  | fault (fault : Fault)
  deriving DecidableEq, Repr

/-- The answer of a computation, given the answer for its result. -/
def Answer.ofResult {α : Type} (answer : α → Answer) :
    EStateM.Result Fault (Console β) α → Answer
  | .ok value _ => answer value
  | .error reason _ => .fault reason

def answer (console : Console β) : Request → Answer
  | .operation (.move .step) => .ofResult .cycles console.step
  | .operation (.move (.access (.read address))) => .byte (console.bus.read address).1
  | .operation (.move _) => .done
  | .operation .runFrame => .ofResult (fun _ => .done) console.runFrame
  | .operation (.runCycles cycles) => .ofResult .reached (console.runCycles cycles)
  | .peek address => .byte (console.bus.peek address)
  | .trace _ => .done

def serve (console : Console β) : Request → Console β
  | .operation operation => console.operate operation
  | .peek _ => console
  | .trace enabled => { console with tracing := enabled }

def answers : Console β → List Request → List Answer
  | _, [] => []
  | console, request :: requests =>
    console.answer request :: (console.serve request).answers requests

def serveAll : Console β → List Request → Console β
  | console, [] => console
  | console, request :: requests => (console.serve request).serveAll requests

end Console

namespace Exchange

open Console

variable {β γ : Type} [Board β] [Board γ] (exchange : Exchange β γ)

/-- A pending transfer stops the processor as long on both machines and leaves them an exchange
apart. -/
theorem runPendingDma_machine (old : Machine β) :
    (exchange.machine old).runPendingDma =
      (old.runPendingDma.1, exchange.machine old.runPendingDma.2) := by
  have hPage : (exchange.machine old).bus.takeDma.1 = old.bus.takeDma.1 := rfl
  have hTaken : (exchange.machine old).bus.takeDma.2 = exchange.bus old.bus.takeDma.2 := rfl
  simp only [runPendingDma, hPage, hTaken, Bus.runDma, copyToOam_bus]
  cases old.bus.takeDma.1 <;> rfl

theorem runPpu_machine (old : Machine β) (cycles : UInt64) :
    (exchange.machine old).runPpu cycles = exchange.machine (old.runPpu cycles) := by
  rw [runPpu, machine, runPpu_bus]
  rfl

theorem sampleInterrupts_machine (old : Machine β) :
    (exchange.machine old).sampleInterrupts = exchange.machine old.sampleInterrupts := by
  have hIrq : Board.irq (exchange.machine old).bus.video.cartridge.board =
      Board.irq old.bus.video.cartridge.board := exchange.irq _
  simp only [sampleInterrupts, hIrq]
  rfl

/-- The end of a step takes as long on both machines and leaves them an exchange apart. -/
theorem finishStep_machine (old : Machine β) (cycles : UInt64) :
    (exchange.machine old).finishStep cycles =
      ((old.finishStep cycles).1, exchange.machine (old.finishStep cycles).2) := by
  simp only [finishStep, runPendingDma_machine, runPpu_machine, sampleInterrupts_machine]

def console (old : Console β) : Console γ where
  toMachine := exchange.machine old.toMachine
  tracing := old.tracing
  log := old.log

/-- Both machines show the same line. -/
theorem traceLine_machine (old : Machine β) :
    traceLine (exchange.machine old) = traceLine old := by
  have hPeek : (exchange.machine old).bus.peek = old.bus.peek :=
    funext (exchange.peek_bus old.bus)
  rw [traceLine, hPeek]
  rfl

theorem trace_console (old : Console β) :
    (exchange.console old).trace = exchange.console old.trace := by
  have hLine : traceLine (exchange.console old).toMachine = traceLine old.toMachine :=
    exchange.traceLine_machine old.toMachine
  rw [trace, trace, hLine, apply_ite exchange.console]
  rfl

/-- A step gives the same on both consoles, a fault included, and leaves them an exchange apart. -/
theorem step_console (old : Console β) :
    (exchange.console old).step = withState exchange.console old.step := by
  have hMachine : (exchange.console old.trace).toMachine.step =
      withState exchange.machine old.trace.toMachine.step := exchange.step_machine _
  simp only [Console.step, trace_console, hMachine]
  cases old.trace.toMachine.step with
  | ok cycles next =>
      simp only [withState, finishStep_machine]
      rfl
  | error fault next => rfl

/-- A run to a condition commutes with the exchange, if the condition does. -/
theorem stepUntil_console (done : Console γ → Bool) (limit : Nat) (old : Console β) :
    stepUntil done limit (exchange.console old) =
      withState exchange.console
        (stepUntil (fun old => done (exchange.console old)) limit old) := by
  induction limit generalizing old with
  | zero => rfl
  | succ limit ih =>
      simp only [stepUntil, step_console]
      split
      · rfl
      · cases old.step with
        | ok total next => exact ih next
        | error fault next => rfl

theorem discard_eq_withState {ε σ τ α : Type} {change : σ → τ} {run : EStateM ε σ α}
    {changed : EStateM ε τ α} {state : σ}
    (hRun : changed (change state) = withState change (run state)) :
    (discard changed : EStateM ε τ Unit) (change state) =
      withState change ((discard run : EStateM ε σ Unit) state) := by
  simp only [discard, Functor.mapConst, EStateM.map, Function.comp, hRun]
  cases run state <;> rfl

theorem runFrame_console (old : Console β) :
    (exchange.console old).runFrame = withState exchange.console old.runFrame :=
  discard_eq_withState (exchange.stepUntil_console _ _ old)

theorem runCycles_console (cycles : UInt64) (old : Console β) :
    (exchange.console old).runCycles cycles = withState exchange.console (old.runCycles cycles) :=
  exchange.stepUntil_console _ _ old

theorem left_withState {α : Type} (result : EStateM.Result Fault (Console β) α) :
    left (withState exchange.console result) = exchange.console (left result) := by
  cases result <;> rfl

theorem ofResult_withState {α : Type} (answer : α → Answer)
    (result : EStateM.Result Fault (Console β) α) :
    Answer.ofResult answer (withState exchange.console result) = Answer.ofResult answer result := by
  cases result <;> rfl

theorem apply_console (old : Console β) (move : Move) :
    (exchange.console old).apply move = exchange.console (old.apply move) := by
  cases move with
  | step => rw [Console.apply, step_console, left_withState, Console.apply]
  | reset | plug source => rfl
  | access access =>
      simp only [Console.apply]
      rw [console, machine, access_bus]
      rfl

theorem operate_console (old : Console β) (operation : Operation) :
    (exchange.console old).operate operation = exchange.console (old.operate operation) := by
  cases operation with
  | move move => exact exchange.apply_console old move
  | runFrame => rw [operate, runFrame_console, left_withState, operate]
  | runCycles cycles => rw [operate, runCycles_console, left_withState, operate]

theorem serve_console (old : Console β) (request : Request) :
    (exchange.console old).serve request = exchange.console (old.serve request) := by
  cases request with
  | operation operation => exact exchange.operate_console old operation
  | peek address => rfl
  | trace enabled => rfl

/-- The answer to a request is the same. -/
theorem answer_console (old : Console β) (request : Request) :
    (exchange.console old).answer request = old.answer request := by
  cases request with
  | operation operation =>
      cases operation with
      | move move =>
          cases move with
          | step => rw [answer, step_console, ofResult_withState, answer]
          | reset | plug source => rfl
          | access access =>
              cases access with
              | read address =>
                  exact congrArg (fun found => Answer.byte found.1)
                    (exchange.read_bus old.bus address)
              | write address value => rfl
      | runFrame => rw [answer, runFrame_console, ofResult_withState, answer]
      | runCycles cycles => rw [answer, runCycles_console, ofResult_withState, answer]
  | peek address => exact congrArg Answer.byte (exchange.peek_bus old.bus address)
  | trace enabled => rfl

/-- Any number of requests leaves both consoles an exchange apart. -/
theorem serveAll_console (old : Console β) (requests : List Request) :
    (exchange.console old).serveAll requests = exchange.console (old.serveAll requests) := by
  induction requests generalizing old with
  | nil => rfl
  | cons request requests ih => rw [serveAll, serve_console, ih, serveAll]

/-- No request ever tells the consoles apart. -/
theorem answers_console (old : Console β) (requests : List Request) :
    (exchange.console old).answers requests = old.answers requests := by
  induction requests generalizing old with
  | nil => rfl
  | cons request requests ih => rw [answers, answer_console, serve_console, ih, answers]

end Exchange

end Nes
