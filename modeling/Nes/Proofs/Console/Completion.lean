import Nes.Cli.Program
import Nes.Proofs.Console.Lockstep
import Nes.Proofs.Ppu.PictureLength

/-! Runs of a console come to an end. A run for a picture or for a number of cycles is a number of
steps, the least one that is enough, unless one of them faults before. -/

namespace Nes.Console

open Cpu Bus
open Ppu (Action Moment)

variable {β : Type} [Board β]

/-- A number of steps. One that faults is the last one. -/
def stepTimes : (steps : Nat) → EStateM Fault (Console β) Unit
  | 0 => fun console => .ok () console
  | steps + 1 => fun console =>
    match console.step with
    | .ok _ next => stepTimes steps next
    | .error fault next => .error fault next

theorem stepTimes_ok {console next : Console β} {total : UInt64} (steps : Nat)
    (hStep : console.step = .ok total next) :
    stepTimes (steps + 1) console = stepTimes steps next := by
  simp only [stepTimes, hStep]

/-- A fault ends a number of steps. -/
theorem stepTimes_error {console next : Console β} {fault : Fault} (steps : Nat)
    (hStep : console.step = .error fault next) :
    stepTimes (steps + 1) console = .error fault next := by
  simp only [stepTimes, hStep]

theorem stepTimes_add {console next : Console β} {first : Nat} (second : Nat)
    (hFirst : stepTimes first console = .ok () next) :
    stepTimes (first + second) console = stepTimes second next := by
  induction first generalizing console with
  | zero =>
      obtain ⟨-, rfl⟩ := EStateM.Result.ok.inj hFirst
      rw [Nat.zero_add]
  | succ first ih =>
      rw [Nat.succ_add]
      cases hStep : console.step with
      | ok total middle =>
          rw [stepTimes_ok _ hStep] at hFirst ⊢
          exact ih hFirst
      | error fault middle =>
          rw [stepTimes_error _ hStep] at hFirst
          cases hFirst

/-- A loop over steps has taken a number of them: the least one behind which its condition holds, or
one that faults before the condition holds. -/
structure RunsUntil (done : Console β → Bool) (console : Console β) (steps : Nat)
    (result : EStateM.Result Fault (Console β) Unit) : Prop where
  taken : stepTimes steps console = result
  goesOn : ∀ earlier < steps, ∃ before, stepTimes earlier console = .ok () before ∧
    done before = false
  stops : ∀ next, result = .ok () next → done next = true

namespace RunsUntil

variable {done : Console β → Bool} {console next : Console β}

/-- Nothing has to run if the condition holds. -/
theorem zero (hDone : done console = true) : RunsUntil done console 0 (.ok () console) where
  taken := rfl
  goesOn := fun _ hEarlier => absurd hEarlier (Nat.not_lt_zero _)
  stops := by
    rintro _ ⟨⟩
    exact hDone

/-- A fault ends a run before its condition holds. -/
theorem fault {fault : Fault} (hDone : done console = false)
    (hStep : console.step = .error fault next) :
    RunsUntil done console 1 (.error fault next) where
  taken := stepTimes_error 0 hStep
  goesOn := by
    intro earlier hEarlier
    obtain rfl : earlier = 0 := by omega
    exact ⟨console, rfl, hDone⟩
  stops := by
    rintro _ ⟨⟩

/-- A run goes on with one more step as long as its condition does not hold. -/
theorem succ {total : UInt64} {steps : Nat} {result : EStateM.Result Fault (Console β) Unit}
    (hDone : done console = false) (hStep : console.step = .ok total next)
    (hRest : RunsUntil done next steps result) :
    RunsUntil done console (steps + 1) result where
  taken := (stepTimes_ok steps hStep).trans hRest.taken
  goesOn := by
    intro earlier hEarlier
    cases earlier with
    | zero => exact ⟨console, rfl, hDone⟩
    | succ earlier =>
        rw [stepTimes_ok earlier hStep]
        exact hRest.goesOn earlier (Nat.lt_of_succ_lt_succ hEarlier)
  stops := hRest.stops

/-- A loop that does not start at its end takes a step. -/
theorem one_le {steps : Nat} {result : EStateM.Result Fault (Console β) Unit}
    (hRun : RunsUntil done console steps result) (hDone : done console = false) : 1 ≤ steps := by
  cases steps with
  | zero =>
      have hEnd := hRun.stops console hRun.taken.symm
      rw [hDone] at hEnd
      exact absurd hEnd Bool.false_ne_true
  | succ steps => exact Nat.succ_pos steps

end RunsUntil

omit [Board β] in
/-- A result that nobody needs leaves the rest of a run as it is. -/
theorem discard_apply {α : Type} (run : EStateM Fault (Console β) α) (console : Console β) :
    (discard run : EStateM Fault (Console β) Unit) console =
      match run console with
      | .ok _ next => .ok () next
      | .error fault next => .error fault next := by
  simp only [discard, Functor.mapConst, EStateM.map, Function.comp]
  cases run console <;> rfl

/-- The rule for loops. Let every step keep an invariant and bring the end nearer, and let the end
be no further than the limit. Then the loop ends, and not because of the limit, and the invariant
holds behind it. -/
theorem stepUntil_runsUntil {done : Console β → Bool} {inv : Console β → Prop}
    {distance : Console β → Nat}
    (hStep : ∀ console total next, inv console → done console = false →
      console.step = .ok total next → inv next ∧ distance next < distance console)
    (hEnd : ∀ console, distance console = 0 → done console = true)
    {limit : Nat} {console : Console β} (hInv : inv console) (hLimit : distance console ≤ limit) :
    (∃ steps, RunsUntil done console steps ((discard (stepUntil done limit)) console)) ∧
      ∀ finished next, stepUntil done limit console = .ok finished next →
        finished = true ∧ done next = true ∧ inv next := by
  rw [discard_apply]
  induction limit generalizing console with
  | zero =>
      have hDone : done console = true := hEnd console (Nat.le_zero.mp hLimit)
      refine ⟨⟨0, RunsUntil.zero hDone⟩, ?_⟩
      rintro _ _ ⟨⟩
      exact ⟨hDone, hDone, hInv⟩
  | succ limit ih =>
      cases hDone : done console with
      | true =>
          have hRun : stepUntil done (limit + 1) console = .ok true console := by
            simp only [stepUntil, hDone, if_true]
          rw [hRun]
          refine ⟨⟨0, RunsUntil.zero hDone⟩, ?_⟩
          rintro _ _ ⟨⟩
          exact ⟨rfl, hDone, hInv⟩
      | false =>
          cases hNext : console.step with
          | error fault next =>
              have hRun : stepUntil done (limit + 1) console = .error fault next := by
                simp only [stepUntil, hDone, hNext, Bool.false_eq_true, if_false]
              rw [hRun]
              refine ⟨⟨1, RunsUntil.fault hDone hNext⟩, ?_⟩
              rintro _ _ ⟨⟩
          | ok total next =>
              have hRun : stepUntil done (limit + 1) console = stepUntil done limit next := by
                simp only [stepUntil, hDone, hNext, Bool.false_eq_true, if_false]
              obtain ⟨hInvNext, hNearer⟩ := hStep console total next hInv hDone hNext
              obtain ⟨⟨steps, hRest⟩, hAfter⟩ := ih hInvNext (by omega)
              rw [hRun]
              exact ⟨⟨steps + 1, hRest.succ hDone hNext⟩, hAfter⟩

/-- Every step takes time. -/
theorem two_le_total {console next : Console β} {total : UInt64}
    (hStep : console.step = .ok total next) : 2 ≤ total.toNat := by
  obtain ⟨hShort, hLong⟩ := total_bounds hStep
  cases hTransfers : console.transfers with
  | false => exact (hShort hTransfers).1
  | true =>
      have := hLong hTransfers
      omega

/-- A step moves the beam on by three dots for each of its cycles, and completes one picture at
most. -/
theorem beam_step {console next : Console β} {total : UInt64}
    (hStep : console.step = .ok total next) :
    next.bus.ppu.beam.frames = console.bus.ppu.beam.frames ∧
        next.bus.ppu.beam.position = console.bus.ppu.beam.position + 3 * total.toNat ∨
      next.bus.ppu.beam.frames = console.bus.ppu.beam.frames + 1 ∧
        next.bus.ppu.beam.position < 3 * total.toNat := by
  have hDots := dots_stepActivity_ok hStep
  have hMost := total_le hStep
  have hPpu := ppu_step console
  rw [hStep, left] at hPpu
  rw [hPpu, ← hDots]
  exact Ppu.beam_execute_short (by omega)

theorem toNat_add_one {count : UInt64} (hRoom : count.toNat + 1 < UInt64.size) :
    (count + 1).toNat = count.toNat + 1 := by
  rw [UInt64.toNat_add]
  exact Nat.mod_eq_of_lt hRoom

def framesPast (frames : UInt64) (console : Console β) : Bool :=
  decide (frames < console.bus.ppu.beam.frames)

def cyclesReach (cycles : Nat) (console : Console β) : Bool :=
  decide (cycles ≤ console.cpu.cycles.toNat)

/-- A run for a picture takes the least number of steps that completes one. It completes no other,
and its last step ends shortly behind the end of the picture. -/
theorem runFrame_runsUntil (console : Console β)
    (hFrames : console.bus.ppu.beam.frames.toNat + 1 < UInt64.size) :
    (∃ steps, RunsUntil (framesPast console.bus.ppu.beam.frames) console steps console.runFrame) ∧
      ∀ next, console.runFrame = .ok () next →
        next.bus.ppu.beam.frames = console.bus.ppu.beam.frames + 1 ∧
        next.bus.ppu.beam.position ≤ 1565 := by
  let frames := console.bus.ppu.beam.frames
  have hOne : (frames + 1).toNat = frames.toNat + 1 := toNat_add_one hFrames
  have hTarget : (fun later : Console β => decide (frames + 1 ≤ later.bus.ppu.beam.frames)) =
      framesPast frames := by
    funext later
    rw [framesPast, decide_eq_decide, UInt64.le_iff_toNat_le, UInt64.lt_iff_toNat_lt, hOne]
    exact Iff.rfl
  have hSame (later : Console β) (h : later.bus.ppu.beam.frames = frames) :
      framesPast frames later = false := by
    rw [framesPast, h]
    simp
  have hPast (later : Console β) (h : later.bus.ppu.beam.frames = frames + 1) :
      framesPast frames later = true := by
    rw [framesPast, h, decide_eq_true_eq, UInt64.lt_iff_toNat_lt, hOne]
    exact Nat.lt_succ_self _
  let inv (later : Console β) : Prop := later.bus.ppu.beam.frames = frames ∨
    later.bus.ppu.beam.frames = frames + 1 ∧ later.bus.ppu.beam.position ≤ 1565
  let distance (later : Console β) : Nat :=
    if framesPast frames later then 0 else 89342 - later.bus.ppu.beam.position
  have hStep (before : Console β) (total : UInt64) (next : Console β) (hInv : inv before)
      (hDone : framesPast frames before = false) (hNext : before.step = .ok total next) :
      inv next ∧ distance next < distance before := by
    have hLt := before.bus.ppu.beam.position_lt
    have hLeast := two_le_total hNext
    have hMost := total_le hNext
    have hBefore : before.bus.ppu.beam.frames = frames := by
      rcases hInv with hInside | hBehind
      · exact hInside
      · rw [hPast before hBehind.1] at hDone
        exact absurd hDone.symm Bool.false_ne_true
    simp only [distance, hDone]
    rcases beam_step hNext with ⟨hInside, hPosition⟩ | ⟨hBehind, hPosition⟩
    · rw [hBefore] at hInside
      have := next.bus.ppu.beam.position_lt
      rw [hSame next hInside]
      exact ⟨.inl hInside, by simp; omega⟩
    · rw [hBefore] at hBehind
      rw [hPast next hBehind]
      exact ⟨.inr ⟨hBehind, by omega⟩, by simp; omega⟩
  have hEnd (later : Console β) (hZero : distance later = 0) : framesPast frames later = true := by
    have := later.bus.ppu.beam.position_lt
    simp only [distance] at hZero
    split at hZero
    · assumption
    · omega
  have hLimit : distance console ≤ dotsPerFrame := by
    simp only [distance, dotsPerFrame]
    split <;> omega
  obtain ⟨hRuns, hAfter⟩ := stepUntil_runsUntil hStep hEnd (.inl rfl) hLimit
  have hLoop : console.runFrame = (discard (stepUntil (framesPast frames) dotsPerFrame) :
      EStateM Fault (Console β) Unit) console := by
    rw [← hTarget]
    rfl
  refine ⟨by rw [hLoop]; exact hRuns, fun next hNext => ?_⟩
  rw [hLoop, discard_apply] at hNext
  split at hNext
  · rename_i finished later hRun
    obtain ⟨-, rfl⟩ := EStateM.Result.ok.inj hNext
    obtain ⟨-, hDone, hInside | hBehind⟩ := hAfter finished later hRun
    · rw [hSame later hInside] at hDone
      exact absurd hDone Bool.false_ne_true
    · exact hBehind
  · cases hNext

/-- A run for a number of cycles takes the least number of steps that counts them, and the last of
them counts at most 521 more. -/
theorem runCycles_runsUntil (console : Console β) (cycles : UInt64)
    (hCycles : console.cpu.cycles.toNat + cycles.toNat + 522 ≤ UInt64.size) :
    (∃ steps, RunsUntil (cyclesReach (console.cpu.cycles.toNat + cycles.toNat)) console steps
      ((discard (runCycles cycles)) console)) ∧
      ∀ reached next, console.runCycles cycles = .ok reached next → reached = true ∧
        console.cpu.cycles.toNat + cycles.toNat ≤ next.cpu.cycles.toNat ∧
        (0 < cycles →
          next.cpu.cycles.toNat ≤ console.cpu.cycles.toNat + cycles.toNat + 521) := by
  let target := console.cpu.cycles.toNat + cycles.toNat
  have hTarget :
      (fun later : Console β => decide (console.cpu.cycles + cycles ≤ later.cpu.cycles)) =
        cyclesReach target := by
    funext later
    rw [cyclesReach, decide_eq_decide, UInt64.le_iff_toNat_le, UInt64.toNat_add,
      Nat.mod_eq_of_lt (show target < UInt64.size by omega)]
  have hStep (before : Console β) (total : UInt64) (next : Console β)
      (hInv : before.cpu.cycles.toNat ≤ target + 521) (hDone : cyclesReach target before = false)
      (hNext : before.step = .ok total next) : next.cpu.cycles.toNat ≤ target + 521 ∧
        target - next.cpu.cycles.toNat < target - before.cpu.cycles.toNat := by
    have hLeast := two_le_total hNext
    have hMost := total_le hNext
    have hBefore : before.cpu.cycles.toNat < target := by
      simpa [cyclesReach] using hDone
    have hCount : next.cpu.cycles.toNat = before.cpu.cycles.toNat + total.toNat := by
      rw [cycles_step hNext, UInt64.toNat_add]
      exact Nat.mod_eq_of_lt (show _ < UInt64.size by omega)
    omega
  have hEnd (later : Console β) (hZero : target - later.cpu.cycles.toNat = 0) :
      cyclesReach target later = true := by
    rw [cyclesReach, decide_eq_true_eq]
    omega
  have hLimit : target - console.cpu.cycles.toNat ≤ cycleCounts := by
    have := cycles.toNat_lt_size
    simp only [cycleCounts]
    omega
  obtain ⟨hRuns, hAfter⟩ := stepUntil_runsUntil hStep hEnd (by omega) hLimit
  have hLoop : runCycles cycles console = stepUntil (cyclesReach target) cycleCounts console := by
    rw [← hTarget]
    rfl
  rw [discard_apply] at hRuns ⊢
  rw [hLoop]
  refine ⟨hRuns, fun reached next hNext => ?_⟩
  obtain ⟨hReached, hDone, hInv⟩ := hAfter reached next hNext
  exact ⟨hReached, by simpa [cyclesReach] using hDone, fun _ => hInv⟩

/-- A run for a number of pictures consists of steps, and completes as many pictures. -/
theorem runFrames_stepTimes (frames : Nat) (console : Console β)
    (hFrames : console.bus.ppu.beam.frames.toNat + frames < UInt64.size) :
    (∃ steps, stepTimes steps console = runFrames frames console) ∧
      ∀ next, runFrames frames console = .ok () next →
        next.bus.ppu.beam.frames.toNat = console.bus.ppu.beam.frames.toNat + frames := by
  induction frames generalizing console with
  | zero =>
      refine ⟨⟨0, rfl⟩, ?_⟩
      rintro _ ⟨⟩
      rfl
  | succ frames ih =>
      obtain ⟨⟨first, hFirst⟩, hAfter⟩ := runFrame_runsUntil console (by omega)
      simp only [runFrames, bind, EStateM.bind]
      cases hRun : console.runFrame with
      | error fault next =>
          refine ⟨⟨first, hFirst.taken.trans hRun⟩, ?_⟩
          rintro _ ⟨⟩
      | ok _ middle =>
          have hMiddle : middle.bus.ppu.beam.frames.toNat =
              console.bus.ppu.beam.frames.toNat + 1 := by
            rw [(hAfter middle hRun).1, toNat_add_one (by omega)]
          obtain ⟨⟨second, hSecond⟩, hRest⟩ := ih middle (by omega)
          refine ⟨⟨first + second, ?_⟩, fun next hNext => ?_⟩
          · rw [stepTimes_add second (hFirst.taken.trans hRun), hSecond]
          · rw [hRest next hNext, hMiddle]
            omega

/-- Runs come to an end, and they are steps. A run for a picture, with room left in the count of
pictures, takes the least number of steps behind which one more is complete, and at least one. Then
the count has grown by one, and the beam is still among the first dots. A run for a number of
cycles, with room left in the count of cycles, takes the least number of steps that counts them, and
not more than 521 cycles beyond. In both of them a step that faults is the last one. So the program
completes exactly the number of pictures that it is asked for, whichever it is, unless a step
faults. -/
theorem runs_complete (console : Console β) (cycles : UInt64) (cartridge : Cartridge Nrom)
    (options : Cli.Options) (log : Log) (frames : UInt64) :
    (console.bus.ppu.beam.frames.toNat + 1 < UInt64.size →
      (∃ steps, 1 ≤ steps ∧
        RunsUntil (framesPast console.bus.ppu.beam.frames) console steps console.runFrame) ∧
      ∀ next, console.runFrame = .ok () next →
        next.bus.ppu.beam.frames = console.bus.ppu.beam.frames + 1 ∧
        next.bus.ppu.beam.position ≤ 1565) ∧
    (console.cpu.cycles.toNat + cycles.toNat + 522 ≤ UInt64.size →
      (∃ steps, RunsUntil (cyclesReach (console.cpu.cycles.toNat + cycles.toNat)) console steps
        ((discard (runCycles cycles)) console)) ∧
      ∀ reached next, console.runCycles cycles = .ok reached next → reached = true ∧
        console.cpu.cycles.toNat + cycles.toNat ≤ next.cpu.cycles.toNat ∧
        (0 < cycles →
          next.cpu.cycles.toNat ≤ console.cpu.cycles.toNat + cycles.toNat + 521)) ∧
    (let start : Console Nrom := { powerOn cartridge with tracing := options.trace, log }
      ∃ steps, runFrames frames.toNat start = stepTimes steps start ∧
        ∀ next, stepTimes steps start = .ok () next → next.bus.ppu.beam.frames = frames ∧
          Cli.runConsole { options with headlessFrames := some frames } start =
            { success := true, log := next.log.add .info (Cli.summary next) }) := by
  refine ⟨fun hFrames => ?_, runCycles_runsUntil console cycles, ?_⟩
  · obtain ⟨⟨steps, hRuns⟩, hAfter⟩ := runFrame_runsUntil console hFrames
    exact ⟨⟨steps, hRuns.one_le (by simp [framesPast]), hRuns⟩, hAfter⟩
  · intro start
    have hZero : start.bus.ppu.beam.frames.toNat = 0 := rfl
    obtain ⟨⟨steps, hSteps⟩, hAfter⟩ := runFrames_stepTimes frames.toNat start
      (by have := frames.toNat_lt_size; omega)
    refine ⟨steps, hSteps.symm, fun next hNext => ⟨?_, ?_⟩⟩
    · rw [← UInt64.toNat_inj, hAfter next (hSteps.symm.trans hNext), hZero, Nat.zero_add]
    · simp only [Cli.runConsole, hSteps.symm.trans hNext]

/-- A run for a single cycle takes a step with a whole sprite transfer. -/
theorem runs_complete_transferring :
    let console := (powerOn transferring).operateAll beforeTransfer
    console.bus.ppu.beam.frames.toNat + 1 < UInt64.size ∧
    console.cpu.cycles.toNat + (1 : UInt64).toNat + 522 ≤ UInt64.size ∧
    (∃ steps, 1 ≤ steps ∧
      RunsUntil (framesPast console.bus.ppu.beam.frames) console steps console.runFrame) ∧
    (∃ steps, RunsUntil (cyclesReach (console.cpu.cycles.toNat + (1 : UInt64).toNat)) console steps
      ((discard (runCycles 1)) console)) ∧
    ∃ next, console.runCycles 1 = .ok true next ∧ 10 ≤ next.cpu.cycles.toNat ∧
      next.cpu.cycles.toNat ≤ 531 := by
  intro console
  have hCycles : console.cpu.cycles.toNat = 9 := by decide +kernel
  have hFrames : console.bus.ppu.beam.frames.toNat + 1 < UInt64.size := by decide +kernel
  have hOne : (1 : UInt64).toNat = 1 := rfl
  have hRoom : console.cpu.cycles.toNat + (1 : UInt64).toNat + 522 ≤ UInt64.size := by
    rw [hCycles, hOne]
    decide
  obtain ⟨hFrame, hCount, -⟩ := runs_complete console 1 transferring {} {} 0
  obtain ⟨hSteps, hReached⟩ := hCount hRoom
  have hEnds : (match console.runCycles 1 with
      | .ok _ _ => true
      | .error _ _ => false) = true := by decide +kernel
  refine ⟨hFrames, hRoom, (hFrame hFrames).1, hSteps, ?_⟩
  cases hRun : console.runCycles 1 with
  | error fault next =>
      rw [hRun] at hEnds
      exact absurd hEnds Bool.false_ne_true
  | ok reached next =>
      obtain ⟨rfl, hLeast, hMost⟩ := hReached reached next hRun
      have := hMost (by decide)
      exact ⟨next, rfl, by omega, by omega⟩

end Nes.Console
