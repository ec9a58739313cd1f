import Nes.Cartridge.Nrom
import Nes.Proofs.Console.Session
import Nes.Proofs.Ppu.ShortPictures

/-! The picture unit in step with the processor: three dots for each cycle, whatever a session asks
for and whatever its program does. -/

namespace Nes.Console

open Cpu Bus
open Ppu (Action Moment shortPictures)

variable {β : Type} [Board β]

/-- The next step ends with a sprite transfer. -/
def transfers (console : Console β) : Bool :=
  match console.toMachine.step with
  | .ok _ machine => machine.bus.dmaPage.isSome
  | .error _ _ => false

/-- No move carries the cycle count past the end of its range. -/
def countsOn : Console β → List Move → Bool
  | _, [] => true
  | console, move :: moves =>
    decide (console.cpu.cycles ≤ (console.apply move).cpu.cycles) &&
      (console.apply move).countsOn moves

/-- A step counts the cycles that it gives. -/
theorem cycles_step {console next : Console β} {total : UInt64}
    (hStep : console.step = .ok total next) :
    next.cpu.cycles = console.cpu.cycles + total := by
  obtain ⟨cycles, machine, hMachine, hTotal, hNext⟩ := step_ok hStep
  have hCounted : next.cpu.cycles = machine.runPendingDma.2.cpu.cycles := by
    rw [hNext]
    rfl
  rw [hCounted, (Machine.runPendingDma_stall machine).1, (Machine.step_ok hMachine).2.1, hTotal,
    UInt64.add_assoc]

/-- A step takes two to eight cycles, and 513 or 514 more with a sprite transfer. -/
theorem total_bounds {console next : Console β} {total : UInt64}
    (hStep : console.step = .ok total next) :
    (console.transfers = false → 2 ≤ total.toNat ∧ total.toNat ≤ 8) ∧
      (console.transfers = true → 515 ≤ total.toNat ∧ total.toNat ≤ 522) := by
  obtain ⟨cycles, machine, hMachine, hTotal, -⟩ := step_ok hStep
  have hCycles := Machine.step_cycles hMachine
  have hStall := (Machine.runPendingDma_stall machine).2
  have hTransfers : console.transfers = machine.bus.dmaPage.isSome := by
    rw [transfers, hMachine]
  rw [hTransfers, hTotal]
  constructor
  · intro hNone
    rw [hNone, if_neg Bool.false_ne_true] at hStall
    rw [hStall, UInt64.add_zero]
    exact hCycles
  · intro hSome
    rw [if_pos hSome] at hStall
    rw [UInt64.toNat_add]
    omega

/-- A step that ends with a transfer does not fault. -/
theorem exists_step_of_transfers {console : Console β} (hTransfers : console.transfers = true) :
    ∃ total next, console.step = .ok total next := by
  cases hStep : console.step with
  | ok total next => exact ⟨total, next, rfl⟩
  | error fault next =>
      rw [transfers, step_error hStep] at hTransfers
      exact absurd hTransfers Bool.false_ne_true

/-- No step takes longer than the longest instruction with a transfer. -/
theorem total_le {console next : Console β} {total : UInt64}
    (hStep : console.step = .ok total next) : total.toNat ≤ 522 := by
  obtain ⟨hShort, hLong⟩ := total_bounds hStep
  cases hTransfers : console.transfers with
  | false =>
      have := hShort hTransfers
      omega
  | true => exact (hLong hTransfers).2

/-- The end of a step has three dots for each of its cycles. -/
theorem dots_finishActivity (machine : Machine β) (cycles : UInt64) :
    Action.dots (machine.finishActivity cycles) =
      3 * (cycles + machine.runPendingDma.1).toNat := by
  have hDma : Action.dots machine.dmaActivity = 0 := by
    rw [Action.dots, List.countP_eq_zero]
    intro action hAction
    rw [(Machine.not_dot_of_mem_dmaActivity hAction).1]
    exact Bool.false_ne_true
  rw [Machine.finishActivity, Action.dots_append, Action.dots_append, hDma, Nat.zero_add]
  simp only [Action.dots, List.countP_replicate, Action.isDot, List.countP_singleton, if_true]
  rfl

/-- A step has three dots for each of its cycles. -/
theorem dots_stepActivity_ok {console next : Console β} {total : UInt64}
    (hStep : console.step = .ok total next) :
    Action.dots console.stepActivity = 3 * total.toNat := by
  obtain ⟨cycles, machine, hMachine, hTotal, -⟩ := step_ok hStep
  rw [stepActivity, hMachine, Action.dots_append, dots_activity, dots_finishActivity, hTotal,
    Nat.zero_add]

/-- A step that faults has no dots. -/
theorem dots_stepActivity_error {console next : Console β} {fault : Fault}
    (hStep : console.step = .error fault next) : Action.dots console.stepActivity = 0 := by
  rw [stepActivity, step_error hStep, Action.dots_append, dots_activity]
  rfl

/-- Every move that keeps the cycle count in its range has three dots for each cycle that it
counts. -/
theorem dots_activityOf {console : Console β} {move : Move}
    (hCount : console.cpu.cycles ≤ (console.apply move).cpu.cycles) :
    3 * (console.apply move).cpu.cycles.toNat =
      3 * console.cpu.cycles.toNat + Action.dots (console.activityOf move) := by
  cases move with
  | step =>
      rw [apply] at hCount ⊢
      cases hStep : console.step with
      | ok total next =>
          have hMost := total_le hStep
          rw [hStep, left, cycles_step hStep, UInt64.le_iff_toNat_le, UInt64.toNat_add] at hCount
          rw [left, cycles_step hStep, activityOf, dots_stepActivity_ok hStep, UInt64.toNat_add]
          have hLt := console.cpu.cycles.toNat_lt
          omega
      | error fault next =>
          have hCycles : next.cpu.cycles = console.cpu.cycles :=
            (Machine.step_error (step_error hStep)).2.1.cycles
          rw [left, hCycles, activityOf, dots_stepActivity_error hStep, Nat.add_zero]
  | reset => rfl
  | plug source => rfl
  | access access =>
      have hQuiet : Action.dots (console.bus.actionsOf access) = 0 := by
        have h := dots_activity console.bus [access]
        rwa [Bus.activity, Bus.activity, List.append_nil] at h
      rw [activityOf, hQuiet]
      rfl

/-- Moves that keep the cycle count in its range have three dots for each cycle that they count. -/
theorem dots_activity_moves {console : Console β} {moves : List Move}
    (hCount : console.countsOn moves = true) :
    3 * (console.applyAll moves).cpu.cycles.toNat =
      3 * console.cpu.cycles.toNat + Action.dots (console.activity moves) := by
  induction moves generalizing console with
  | nil => rfl
  | cons move moves ih =>
      rw [countsOn, Bool.and_eq_true, decide_eq_true_eq] at hCount
      have hMove := dots_activityOf hCount.1
      have hRest := ih hCount.2
      rw [applyAll, activity, Action.dots_append]
      omega

/-- The picture unit never leaves the time line of the processor. In a session from power on whose
cycle count stays in its range, the beam is where three dots for each cycle have brought it, ahead
only by the dots that were left out: one for each complete picture with an odd number that was
rendered at its end. A step gives the cycles that it counts, between two and eight of the processor,
which fit in a byte, and the stall of a sprite transfer if there is one. -/
theorem beam_in_lockstep (cartridge : Cartridge β) (operations : List Operation)
    (hCount : (powerOn cartridge).countsOn ((powerOn cartridge).allMoves operations) = true) :
    let console := (powerOn cartridge).operateAll operations
    let history := ({} : Ppu).moments
      ((powerOn cartridge).activity ((powerOn cartridge).allMoves operations))
    let dots := 3 * console.cpu.cycles.toNat
    let beam := console.bus.ppu.beam
    beam.time = dots + shortPictures history beam.frames.toNat ∧
    dots ≤ beam.time ∧ beam.time ≤ dots + beam.frames.toNat / 2 ∧
    ((∀ moment ∈ history, moment.before.mask.rendering = false) → beam.time = dots) ∧
    (∀ total next, console.step = .ok total next →
      next.cpu.cycles - console.cpu.cycles = total ∧
      (console.transfers = false → 2 ≤ total.toNat ∧ total.toNat ≤ 8) ∧
      (console.transfers = true → 515 ≤ total.toNat ∧ total.toNat ≤ 522)) ∧
    (∀ cycles machine, console.toMachine.step = .ok cycles machine →
      cycles.toUInt8.toUInt64 = cycles) := by
  intro console history dots beam
  have hDots : dots =
      Action.dots ((powerOn cartridge).activity ((powerOn cartridge).allMoves operations)) := by
    have h := dots_activity_moves hCount
    rw [← operateAll_eq_applyAll] at h
    exact h.trans (Nat.zero_add _)
  have hBeam : beam = (({} : Ppu).execute
      ((powerOn cartridge).activity ((powerOn cartridge).allMoves operations))).beam := by
    have h := ppu_applyAll (powerOn cartridge) ((powerOn cartridge).allMoves operations)
    rw [← operateAll_eq_applyAll] at h
    exact congrArg Ppu.beam h
  have hLimit : dots < 3 * UInt64.size := by
    have h := console.cpu.cycles.toNat_lt_size
    omega
  have hTime : beam.time = dots + shortPictures history beam.frames.toNat := by
    rw [hDots] at hLimit ⊢
    rw [hBeam]
    exact Ppu.time_execute _ hLimit
  have hShort := Ppu.shortPictures_le history beam.frames.toNat
  refine ⟨hTime, by omega, by omega, ?_, ?_, ?_⟩
  · intro hDark
    rw [hTime, Ppu.shortPictures_eq_zero hDark, Nat.add_zero]
  · intro total next hStep
    refine ⟨?_, total_bounds hStep⟩
    rw [cycles_step hStep, UInt64.add_comm, UInt64.add_sub_cancel]
  · intro cycles machine hStep
    have hMost := (Machine.step_cycles hStep).2
    rw [← UInt64.toNat_inj, UInt8.toNat_toUInt64, UInt64.toNat_toUInt8]
    exact Nat.mod_eq_of_lt (by omega)

/-- A cartridge whose program requests sprite transfers over and over. -/
def transferring : Cartridge Nrom where
  board :=
    { memory :=
      { prgRom := #[0xa9, 0x02, 0x8d, 0x14, 0x40, 0x4c, 0x00, 0x80, 0, 0, 0, 0, 0x00, 0x80, 0, 0]
        prgRam := #[]
        chr := #[]
        chrIsRam := false
        mirroring := .horizontal } }

/-- The reset, the first instruction and an access from outside. The next step is a transfer. -/
def beforeTransfer : List Operation :=
  [.move .step, .move (.plug none), .runCycles 1, .move (.access (.read 0x2002))]

/-- A session up to a sprite transfer. -/
theorem beam_in_lockstep_transferring :
    let start := powerOn transferring
    let console := start.operateAll beforeTransfer
    let history := ({} : Ppu).moments (start.activity (start.allMoves beforeTransfer))
    start.countsOn (start.allMoves beforeTransfer) = true ∧
    console.cpu.cycles = 9 ∧
    console.bus.ppu.beam.time = 3 * console.cpu.cycles.toNat +
      shortPictures history console.bus.ppu.beam.frames.toNat ∧
    (∀ moment ∈ history, moment.before.mask.rendering = false) ∧
    console.bus.ppu.beam.time = 3 * console.cpu.cycles.toNat ∧
    ∃ total next, console.step = .ok total next ∧ next.cpu.cycles - console.cpu.cycles = total ∧
      515 ≤ total.toNat ∧ total.toNat ≤ 522 := by
  have hCount : (powerOn transferring).countsOn
      ((powerOn transferring).allMoves beforeTransfer) = true := by decide +kernel
  have hTransfers : ((powerOn transferring).operateAll beforeTransfer).transfers = true := by
    decide +kernel
  have hDark : ∀ moment ∈ ({} : Ppu).moments ((powerOn transferring).activity
      ((powerOn transferring).allMoves beforeTransfer)), moment.before.mask.rendering = false := by
    decide +kernel
  obtain ⟨hTime, -, -, hExact, hTotal, -⟩ := beam_in_lockstep transferring beforeTransfer hCount
  obtain ⟨total, next, hStep⟩ := exists_step_of_transfers hTransfers
  obtain ⟨hIncrease, -, hBounds⟩ := hTotal total next hStep
  exact ⟨hCount, by decide +kernel, hTime, hDark, hExact hDark, total, next, hStep, hIncrease,
    hBounds hTransfers⟩

end Nes.Console
