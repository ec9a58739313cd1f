import Nes.Proofs.Bus.Cells
import Nes.Proofs.Console.Session

/-! No access misses its cell. A console whose cells may be missing does the same as the console in
every run from power on, so there are all cells that the run asks for. -/

namespace Nes

open Cpu Bus

namespace Machine

def runPendingDma? (machine : Machine Nrom) : Option (UInt64 × Machine Nrom) :=
  let (page?, bus) := machine.bus.takeDma
  match page? with
  | none => some (0, { machine with bus })
  | some page => do
    let bus ← bus.copyToOam? (page.toUInt16 <<< 8) 256
    let stall := dmaCycles (machine.cpu.cycles % 2 == 0)
    return (stall, { machine with bus }.spend stall)

def finishStep? (machine : Machine Nrom) (cycles : UInt64) : Option (UInt64 × Machine Nrom) := do
  let (stall, machine) ← machine.runPendingDma?
  let total := cycles + stall
  let bus ← machine.bus.runPpu? (3 * total.toNat)
  return (total, { machine with bus }.sampleInterrupts)

variable {machine : Machine Nrom} (hChips : machine.bus.video.cartridge.board.HasChips)

include hChips

theorem runPendingDma?_eq : machine.runPendingDma? = some machine.runPendingDma := by
  have hTaken : machine.bus.takeDma.2.video.cartridge.board.HasChips := hChips
  simp only [runPendingDma?, copyToOam?_eq hTaken, runPendingDma, runDma]
  cases machine.bus.takeDma.1 <;> rfl

omit hChips

theorem sameChips_runPendingDma (machine : Machine Nrom) :
    machine.runPendingDma.2.bus.video.cartridge.SameChips machine.bus.video.cartridge := by
  -- The bytes are copied by accesses, so all that holds of accesses holds of the copy.
  have hCopied (page : UInt8) := machine.bus.takeDma.2.sameChips_accessAll
    (machine.bus.takeDma.2.copyTraffic (page.toUInt16 <<< 8) 256)
  simp only [accessAll_copyTraffic] at hCopied
  simp only [runPendingDma, runDma]
  cases machine.bus.takeDma.1 with
  | none => exact .refl _
  | some page => exact hCopied page

theorem sameChips_finishStep (machine : Machine Nrom) (cycles : UInt64) :
    (machine.finishStep cycles).2.bus.video.cartridge.SameChips machine.bus.video.cartridge :=
  machine.sameChips_runPendingDma

include hChips

theorem finishStep?_eq (cycles : UInt64) :
    machine.finishStep? cycles = some (machine.finishStep cycles) := by
  have hReady := machine.sameChips_runPendingDma.board.hasChips hChips
  simp only [finishStep?, runPendingDma?_eq hChips, Option.bind_eq_bind, Option.bind_some,
    runPpu?_eq hReady, finishStep, runPpu]
  rfl

end Machine

namespace Console

/-- One step. What the processor does to the bus are its accesses. -/
def step? (console : Console Nrom) : Option (Console Nrom) := do
  let bus ← console.bus.accessAll? console.toMachine.traffic
  match console.toMachine.step with
  | .error _ machine => return { console.trace with toMachine := { machine with bus } }
  | .ok cycles machine =>
    let (_, done) ← { machine with bus }.finishStep? cycles
    return { console.trace with toMachine := done }

/-- One thing that is done to a console, a single dot of the picture unit included. -/
inductive Turn where
  | move (move : Move)
  | dot

def take (console : Console Nrom) : Turn → Console Nrom
  | .move move => console.apply move
  | .dot => { console with bus := console.bus.runPpu 1 }

def takeAll : Console Nrom → List Turn → Console Nrom
  | console, [] => console
  | console, turn :: turns => (console.take turn).takeAll turns

/-- The console after a turn, if all cells exist that the turn asks for. -/
def take? (console : Console Nrom) : Turn → Option (Console Nrom)
  | .move .step => console.step?
  | .move .reset => some console.reset
  | .move (.plug source) => some { console with bus.controllers.source := source }
  | .move (.access access) => do return { console with bus := ← console.bus.access? access }
  | .dot => do return { console with bus := ← console.bus.runPpu? 1 }

def takeAll? : Console Nrom → List Turn → Option (Console Nrom)
  | console, [] => some console
  | console, turn :: turns => do (← console.take? turn).takeAll? turns

theorem sameChips_step (console : Console Nrom) :
    (left console.step).bus.video.cartridge.SameChips console.bus.video.cartridge := by
  have hTraffic := console.bus.sameChips_accessAll console.toMachine.traffic
  cases hStep : console.step with
  | ok total next =>
      obtain ⟨cycles, machine, hMachine, -, hNext⟩ := step_ok hStep
      rw [left, hNext]
      rw [← (Machine.step_ok hMachine).1] at hTraffic
      exact (machine.sameChips_finishStep cycles).trans hTraffic
  | error fault next =>
      obtain ⟨hReads, hWorks, -⟩ := Machine.step_error (step_error hStep)
      rw [left, hWorks.bus, ← hReads]
      exact hTraffic

theorem sameChips_take (console : Console Nrom) (turn : Turn) :
    (console.take turn).bus.video.cartridge.SameChips console.bus.video.cartridge := by
  cases turn with
  | move move =>
      cases move with
      | step => exact console.sameChips_step
      | reset => exact .refl _
      | plug source => exact .refl _
      | access access => exact console.bus.sameChips_access access
  | dot => exact .refl _

theorem sameChips_takeAll (console : Console Nrom) (turns : List Turn) :
    (console.takeAll turns).bus.video.cartridge.SameChips console.bus.video.cartridge := by
  induction turns generalizing console with
  | nil => exact .refl _
  | cons turn turns ih => exact (ih (console.take turn)).trans (console.sameChips_take turn)

/-- A turn finds no more than eight sprites for a line. -/
theorem count_take_le (console : Console Nrom) (turn : Turn)
    (hCount : console.bus.ppu.lineSprites.count ≤ 8) :
    (console.take turn).bus.ppu.lineSprites.count ≤ 8 := by
  have hExecute (actions : List Ppu.Action) :
      (console.bus.ppu.execute actions).lineSprites.count ≤ 8 :=
    Ppu.execute_induction (p := (·.lineSprites.count ≤ 8)) Ppu.count_apply_le hCount actions
  cases turn with
  | move move =>
      rw [take, ppu_apply]
      exact hExecute _
  | dot => exact Ppu.count_apply_le console.bus.ppu (.dot console.bus.video.read) hCount

/-- There are never more than eight sprites on a line. -/
theorem count_takeAll_le (console : Console Nrom) (turns : List Turn)
    (hCount : console.bus.ppu.lineSprites.count ≤ 8) :
    (console.takeAll turns).bus.ppu.lineSprites.count ≤ 8 := by
  induction turns generalizing console with
  | nil => exact hCount
  | cons turn turns ih => exact ih (console.take turn) (console.count_take_le turn hCount)

section Chips

variable {console : Console Nrom} (hChips : console.bus.video.cartridge.board.HasChips)

include hChips

/-- A step finds all that it uses, a faulty one included. -/
theorem step?_eq : console.step? = some (left console.step) := by
  have hTraffic := console.bus.sameChips_accessAll console.toMachine.traffic
  simp only [step?, accessAll?_eq hChips, Option.bind_eq_bind, Option.bind_some, step,
    toMachine_trace]
  cases hStep : console.toMachine.step with
  | ok cycles machine =>
      -- The processor's part leaves the bus that its accesses leave.
      have hBus := (Machine.step_ok hStep).1
      rw [← hBus] at hTraffic ⊢
      simp only [Machine.finishStep?_eq (hTraffic.board.hasChips hChips)]
      rfl
  | error fault machine =>
      obtain ⟨hReads, hWorks, -⟩ := Machine.step_error hStep
      rw [hReads, ← hWorks.bus]
      rfl

theorem take?_eq (turn : Turn) : console.take? turn = some (console.take turn) := by
  cases turn with
  | move move =>
      cases move with
      | step => exact step?_eq hChips
      | reset => rfl
      | plug source => rfl
      | access access =>
          rw [take?, access?_eq hChips]
          rfl
  | dot =>
      rw [take?, runPpu?_eq hChips]
      rfl

/-- Any number of turns finds all that it uses. -/
theorem takeAll?_eq (turns : List Turn) :
    console.takeAll? turns = some (console.takeAll turns) := by
  induction turns generalizing console with
  | nil => rfl
  | cons turn turns ih =>
      rw [takeAll?, take?_eq hChips]
      exact ih ((console.sameChips_take turn).board.hasChips hChips)

end Chips

def powerOnWith (cartridge : Cartridge Nrom) (log : Log) (tracing : Bool) : Console Nrom :=
  { powerOn cartridge with log, tracing }

/-- A console that was switched on with a cartridge that loads finds all cells that its run asks
for. After every run, and so also between any two turns, there is a byte wherever a trace looks, no
more than eight sprites were found for a line, there are all three chips, and they are those of the
cartridge, but for the bytes of writable memory. -/
theorem cells_exist {image : Array UInt8} {loading : Log} {cartridge : Cartridge Nrom}
    (hLoad : (Cartridge.outcome image loading).1 = .ok cartridge) (log : Log) (tracing : Bool)
    (turns : List Turn) :
    let start := powerOnWith cartridge log tracing
    let console := start.takeAll turns
    start.takeAll? turns = some console ∧
      (∀ address, console.bus.peek? address = some (console.bus.peek address)) ∧
      console.bus.ppu.lineSprites.count ≤ 8 ∧
      console.bus.video.cartridge.board.HasChips ∧
      console.bus.video.cartridge.SameChips cartridge := by
  intro start console
  have hStart : start.bus.video.cartridge.board.HasChips := Cartridge.hasChips_of_load hLoad
  have hSame : console.bus.video.cartridge.SameChips cartridge := start.sameChips_takeAll turns
  have hChips := hSame.board.hasChips hStart
  have hCount := start.count_takeAll_le turns (Nat.zero_le 8)
  exact ⟨takeAll?_eq hStart turns, peek?_eq hChips, hCount, hChips, hSame⟩

/-- Some turns, with a sprite transfer that is requested and done. -/
def transferTurns : List Turn :=
  [.move .step, .move (.access (.write 0x2001 0x1e)), .dot, .move (.access (.write 0x4014 0x07)),
    .move .step, .move (.access (.read 0x2007))]

/-- A run with a sprite transfer. -/
theorem cells_exist_trained :
    let start := powerOnWith Cartridge.trained.cartridge {} true
    (Cartridge.outcome (Cartridge.trained.image #[]) {}).1 = .ok Cartridge.trained.cartridge ∧
      start.takeAll? transferTurns = some (start.takeAll transferTurns) ∧
      (start.takeAll transferTurns).bus.peek? 0xffff =
        some ((start.takeAll transferTurns).bus.peek 0xffff) ∧
      (start.takeAll transferTurns).bus.ppu.lineSprites.count ≤ 8 ∧
      (start.takeAll transferTurns).bus.video.cartridge.SameChips Cartridge.trained.cartridge := by
  have hLoad := congrArg Prod.fst (Cartridge.trained.outcome_image #[] {})
  obtain ⟨hTurns, hPeek, hCount, -, hSame⟩ := cells_exist hLoad {} true transferTurns
  exact ⟨hLoad, hTurns, hPeek 0xffff, hCount, hSame⟩

end Console

end Nes
