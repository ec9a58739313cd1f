import Nes.Console.Basic

/-! Running a console for a picture, for a number of cycles, or for a number of pictures. -/

namespace Nes

open Cpu

namespace Console

variable {β : Type} [Board β]

/-- Steps until a condition holds, but not more often than the given number of times. Gives whether
the condition holds in the end. -/
def stepUntil (done : Console β → Bool) : (limit : Nat) → EStateM Fault (Console β) Bool
  | 0 => fun console => .ok (done console) console
  | limit + 1 => fun console =>
    if done console then .ok true console
    else
      match console.step with
      | .ok _ console => stepUntil done limit console
      | .error fault console => .error fault console

/-- The number of dots of a picture. Every step lets dots pass, so a picture takes fewer steps. -/
def dotsPerFrame : Nat := 341 * 262

/-- Runs until a picture is complete. -/
def runFrame : EStateM Fault (Console β) Unit := fun console =>
  let target := console.bus.ppu.beam.frames + 1
  discard (stepUntil (fun console => decide (target ≤ console.bus.ppu.beam.frames)) dotsPerFrame)
    console

/-- The number of values of the cycle count. -/
def cycleCounts : Nat := UInt64.size

/-- Runs until the cycle count has reached a target, and stops between two instructions. The target
is the given number of cycles ahead, as a number of 64 bits: a target that wraps around is behind
the count, and nothing runs. Every step takes cycles, so a target ahead is reached within as many
steps, unless a step carries the count past its end. Then the target is ahead again, and the run
goes on from a count near zero. Gives whether the target was reached: a run that misses it over and
over is given up after as many steps as there are cycle counts. -/
def runCycles (cycles : UInt64) : EStateM Fault (Console β) Bool := fun console =>
  let target := console.cpu.cycles + cycles
  stepUntil (fun console => decide (target ≤ console.cpu.cycles)) cycleCounts console

def runFrames : (frames : Nat) → EStateM Fault (Console β) Unit
  | 0 => pure ()
  | frames + 1 => do
    runFrame
    runFrames frames

end Console

end Nes
