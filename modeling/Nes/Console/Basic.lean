import Nes.Bus.Dma
import Nes.Cpu.Disassembly
import Nes.Cpu.Step
import Nes.Log

/-! The whole console on one time line: three dots of the picture unit for each cycle of the
processor. -/

namespace Nes

open Cpu

/-- A console with a cartridge. -/
structure Console (β : Type) extends Machine β where
  /-- Whether instructions are logged before they are executed. -/
  tracing : Bool := false
  log : Log := {}

namespace Machine

variable {β : Type} [Board β]

/-- Runs a sprite transfer if one was requested. Gives the cycles for which it stopped the
processor. -/
def runPendingDma (machine : Machine β) : UInt64 × Machine β :=
  let (page?, bus) := machine.bus.takeDma
  match page? with
  | none => (0, { machine with bus })
  | some page =>
    let (cycles, bus) := bus.runDma page (machine.cpu.cycles % 2 == 0)
    (cycles, { machine with bus }.spend cycles)

/-- Lets the picture unit catch up with a number of cycles. -/
def runPpu (machine : Machine β) (cycles : UInt64) : Machine β :=
  { machine with bus := machine.bus.runPpu (3 * cycles.toNat) }

/-- Takes over the interrupts that the picture unit and the cartridge have raised. The processor
notices them before its next instruction. -/
def sampleInterrupts (machine : Machine β) : Machine β :=
  let (raised, ppu) := machine.bus.ppu.pollNmi
  let irq := Board.irq machine.bus.video.cartridge.board
  { machine with
    cpu.nmiPending := machine.cpu.nmiPending || raised
    cpu.irq := irq
    bus.ppu := ppu }

/-- What happens after the processor's part of a step: a pending sprite transfer, the dots for all
cycles, and the interrupts. Gives the cycles of the whole step. -/
def finishStep (machine : Machine β) (cycles : UInt64) : UInt64 × Machine β :=
  let (stall, machine) := machine.runPendingDma
  let total := cycles + stall
  (total, (machine.runPpu total).sampleInterrupts)

end Machine

namespace Console

variable {β : Type} [Board β]

def powerOn (cartridge : Cartridge β) : Console β :=
  { bus := { video := { cartridge } } }

def reset (console : Console β) : Console β :=
  { console with cpu.resetPending := true }

def traceLine (machine : Machine β) : String :=
  Disassembly.line machine.cpu machine.bus.peek

/-- Logs the next instruction. Steps that take a reset or an interrupt are not logged. -/
def trace (console : Console β) : Console β :=
  if console.tracing && console.cpu.takesInstruction then
    { console with log := console.log.add .trace (traceLine console.toMachine) }
  else
    console

/-- One step: an instruction or an interrupt with everything that goes with it. Gives the cycles
that it took. After a fault the console is as before the step, except that the opcode was read. -/
def step : EStateM Fault (Console β) UInt64 := fun console =>
  let console := console.trace
  match console.toMachine.step with
  | .error fault machine => .error fault { console with toMachine := machine }
  | .ok cycles machine =>
    let (total, machine) := machine.finishStep cycles
    .ok total { console with toMachine := machine }

end Console

end Nes
