import Nes.Proofs.Console.Cells
import Nes.Proofs.Console.Exchange

/-! A console with a single bank of program memory against one whose cartridge has this bank twice.
The processor sees the same program in both, so no session ever tells them apart. -/

namespace Nes

namespace Cartridge.Dump

variable (dump : Dump) (hSingle : dump.prgBanks = 1)

/-- The images differ in the number of banks and in the copy behind the program. -/
theorem image_doubled (tail : Array UInt8) :
    (dump.doubled hSingle).image tail =
      headerBytes 2 dump.chrBanks dump.flags dump.rest ++ dump.trainerBytes ++
        (dump.prg.toArray ++ dump.prg.toArray) ++ dump.chr.toArray ++ tail :=
  rfl

end Cartridge.Dump

namespace Console

open Cartridge

/-- Two consoles agree on everything but the program in their cartridges. -/
structure SameButProgram (first second : Console Nrom) : Prop where
  cpu : second.cpu = first.cpu
  /-- The picture unit with sprite memory, the palette and the picture. -/
  ppu : second.bus.ppu = first.bus.ppu
  ram : second.bus.ram = first.bus.ram
  nametables : second.bus.video.nametables = first.bus.video.nametables
  prgRam : second.bus.video.cartridge.board.memory.prgRam =
    first.bus.video.cartridge.board.memory.prgRam
  chr : second.bus.video.cartridge.board.memory.chr = first.bus.video.cartridge.board.memory.chr
  controllers : second.bus.controllers = first.bus.controllers
  latch : second.bus.latch = first.bus.latch
  dmaPage : second.bus.dmaPage = first.bus.dmaPage
  log : second.log = first.log
  tracing : second.tracing = first.tracing
  peek (address : UInt16) : second.bus.peek address = first.bus.peek address
  traceLine : traceLine second.toMachine = traceLine first.toMachine

/-- Doubling the program changes nothing else. -/
theorem sameButProgram_doubling (console : Console Nrom) :
    SameButProgram console (Nrom.doubling.console console) where
  cpu := rfl
  ppu := rfl
  ram := rfl
  nametables := rfl
  prgRam := rfl
  chr := rfl
  controllers := rfl
  latch := rfl
  dmaPage := rfl
  log := rfl
  tracing := rfl
  peek := Nrom.doubling.peek_bus console.bus
  traceLine := Nrom.doubling.traceLine_machine console.toMachine

/-- A single bank of program memory cannot be told from two copies of it. Let an image declare one
bank, and let another one declare two that both hold this bank, and be the same otherwise. Both
load. Switched on, the two consoles give the same answers to every sequence of steps, runs, accesses
to the bus, resets, changes of controllers, looks at memory and switches of the trace: the same
cycles, the same bytes and the same faults. At the end of each such sequence, and so at every point,
they have the same state, and they have logged the same lines. -/
theorem single_bank_like_doubled (dump : Dump) (hSingle : dump.prgBanks = 1) :
    ∃ single double : Cartridge Nrom,
      (∀ tail loading, (outcome (dump.image tail) loading).1 = .ok single) ∧
      (∀ tail loading, (outcome (headerBytes 2 dump.chrBanks dump.flags dump.rest ++
        dump.trainerBytes ++ (dump.prg.toArray ++ dump.prg.toArray) ++ dump.chr.toArray ++ tail)
        loading).1 = .ok double) ∧
      ∀ log tracing requests,
        let first := powerOnWith single log tracing
        let second := powerOnWith double log tracing
        second.answers requests = first.answers requests ∧
          SameButProgram (first.serveAll requests) (second.serveAll requests) := by
  refine ⟨dump.cartridge, (dump.doubled hSingle).cartridge,
    fun tail loading => congrArg Prod.fst (dump.outcome_image tail loading),
    fun tail loading => ?_, fun log tracing requests => ?_⟩
  · rw [← dump.image_doubled hSingle]
    exact congrArg Prod.fst ((dump.doubled hSingle).outcome_image tail loading)
  · have hStart : powerOnWith (dump.doubled hSingle).cartridge log tracing =
        Nrom.doubling.console (powerOnWith dump.cartridge log tracing) := by
      rw [dump.cartridge_doubled hSingle]
      rfl
    rw [hStart]
    intro first second
    refine ⟨Nrom.doubling.answers_console first requests, ?_⟩
    rw [Nrom.doubling.serveAll_console]
    exact sameButProgram_doubling _

/-- A session that reaches the upper copy with accesses, with the vector of the reset, and with a
sprite transfer. -/
def mirrorRequests : List Request :=
  [.operation (.move .step), .operation (.move (.access (.write 0xc000 0x55))),
    .operation (.move (.access (.read 0xc000))), .operation (.move (.access (.write 0x4014 0xff))),
    .trace true, .operation (.runCycles 600), .peek 0xffff, .operation .runFrame,
    .operation (.move .reset), .operation (.move .step)]

/-- A trained dump of one bank, and the same with its bank twice. -/
theorem single_bank_like_doubled_trained :
    trained.prgBanks = 1 ∧
    ∃ single double : Cartridge Nrom,
      (outcome (trained.image #[]) {}).1 = .ok single ∧
      (outcome (headerBytes 2 0 0x05 (Vector.replicate 9 0) ++ Array.replicate 512 0x60 ++
        (Array.replicate 16384 0xea ++ Array.replicate 16384 0xea)) {}).1 = .ok double ∧
      (powerOnWith double {} false).answers mirrorRequests =
        (powerOnWith single {} false).answers mirrorRequests ∧
      ((powerOnWith double {} false).serveAll mirrorRequests).bus.ppu.screen =
        ((powerOnWith single {} false).serveAll mirrorRequests).bus.ppu.screen := by
  obtain ⟨single, double, hSingle, hDouble, hAlike⟩ := single_bank_like_doubled trained rfl
  obtain ⟨hAnswers, hState⟩ := hAlike {} false mirrorRequests
  refine ⟨rfl, single, double, hSingle #[] {}, ?_, hAnswers, congrArg Ppu.screen hState.ppu⟩
  have hDouble := hDouble #[] {}
  simpa [trained, Dump.trainerBytes] using hDouble

end Console

end Nes
