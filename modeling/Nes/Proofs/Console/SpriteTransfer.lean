import Nes.Proofs.Bus.SpriteTransfer
import Nes.Proofs.Console.Session
import Nes.Proofs.Cpu.Fetch

/-! Sprite transfers on request. An instruction asks for a transfer with its last access, and the
step that executes the instruction also runs the transfer. -/

namespace Nes

open Cpu
open Bus (Access dmaAddress)

namespace Bus

variable {β : Type} [Board β]

/-- The last access asks for a sprite transfer, and no other one does. -/
def EndsWithRequest (accesses : List Access) (page : UInt8) : Prop :=
  ∃ before, accesses = before ++ [.write dmaAddress page] ∧
    ∀ other, .write dmaAddress other ∉ before

/-- Accesses in front that request nothing leave the request what it is. -/
theorem EndsWithRequest.prepend {accesses reads : List Access} {page : UInt8}
    (hEnds : EndsWithRequest accesses page) (hReads : ∀ other, .write dmaAddress other ∉ reads) :
    EndsWithRequest (reads ++ accesses) page := by
  obtain ⟨before, rfl, hNone⟩ := hEnds
  refine ⟨reads ++ before, (List.append_assoc _ _ _).symm, fun other hOther => ?_⟩
  obtain hFirst | hSecond := List.mem_append.mp hOther
  · exact hReads other hFirst
  · exact hNone other hSecond

/-- A request stays until the transfer runs. -/
theorem EndsWithRequest.dmaPage {accesses : List Access} {page : UInt8}
    (hEnds : EndsWithRequest accesses page) (bus : Bus β) :
    (bus.accessAll accesses).dmaPage = some page := by
  obtain ⟨before, rfl, -⟩ := hEnds
  rw [accessAll_append]
  rfl

theorem dmaPage_copyToOam (bus : Bus β) (source : UInt16) (count : Nat) :
    (bus.copyToOam source count).dmaPage = bus.dmaPage := by
  induction count generalizing bus source with
  | zero => rfl
  | succ count ih =>
      rw [copyToOam, ih]
      exact bus.dmaPage_drive source

/-- Whatever the parity before a transfer, the processor goes on in an odd cycle. -/
theorem odd_after_dmaCycles (cycles : UInt64) :
    (cycles + dmaCycles (cycles % 2 == 0)) % 2 = 1 := by
  rw [← UInt64.toNat_inj, UInt64.toNat_mod, UInt64.toNat_add]
  cases hEven : cycles % 2 == 0 with
  | true =>
      have hParity : cycles.toNat % 2 = 0 := congrArg UInt64.toNat (eq_of_beq hEven)
      exact show (cycles.toNat + 513) % 0x10000000000000000 % 2 = 1 by omega
  | false =>
      have hParity : cycles.toNat % 2 ≠ 0 := fun hZero =>
        ne_of_beq_false hEven (UInt64.toNat_inj.mp hZero)
      exact show (cycles.toNat + 514) % 0x10000000000000000 % 2 = 1 by omega

end Bus

theorem Ppu.oam_run (ppu : Ppu) (memory : UInt16 → UInt8) (dots : Nat) :
    (ppu.run memory dots).oam = ppu.oam := by
  induction dots generalizing ppu with
  | zero => rfl
  | succ dots ih => rw [run_succ, ih, oam_tick]

namespace Machine

variable {β : Type} [Board β]

/-- A write to the stack asks for no transfer. -/
theorem stackAddress_ne_dmaAddress (s : UInt8) : stackAddress s ≠ dmaAddress := by
  intro hSame
  have hPlace := toNat_stackAddress s
  have hLt := s.toNat_lt
  rw [hSame] at hPlace
  have hDma : dmaAddress.toNat = 0x4014 := rfl
  omega

theorem request_notMem_pushWordTraffic (s : UInt8) (word : UInt16) (page : UInt8) :
    .write dmaAddress page ∉ pushWordTraffic s word := by
  simp [pushWordTraffic, (stackAddress_ne_dmaAddress _).symm]

omit [Board β] in
theorem request_notMem_interruptTraffic (machine : Machine β) (vector : UInt16) (software : Bool)
    (page : UInt8) : .write dmaAddress page ∉ machine.interruptTraffic vector software := by
  simp [interruptTraffic, pushWordTraffic, wordTraffic, (stackAddress_ne_dmaAddress _).symm]

theorem request_notMem_operandTraffic (machine : Machine β) (mode : AddressingMode)
    (page : UInt8) : .write dmaAddress page ∉ machine.operandTraffic mode := by
  cases mode <;> simp [operandTraffic, wordTraffic, wordInPageTraffic]

/-- An effect that asks for a transfer stores a byte at the address of its operand. -/
theorem effectTraffic_endsWithRequest {machine : Machine β} {effect : Effect} {operand : Operand}
    {page : UInt8} (hRequest : .write dmaAddress page ∈ machine.effectTraffic effect operand) :
    Bus.EndsWithRequest (machine.effectTraffic effect operand) page := by
  cases effect with
  | store value =>
      have hSame := List.mem_singleton.mp hRequest
      exact ⟨[], congrArg (fun access => [access]) hSame.symm, fun _ => List.not_mem_nil⟩
  | modify result apply =>
      let value := (machine.read operand.address).1
      let stored := result machine.cpu.toRegisters value
      have hSame : Access.write dmaAddress page = .write operand.address stored := by
        simpa [effectTraffic] using hRequest
      refine ⟨[.read operand.address], ?_, by simp⟩
      rw [hSame]
      rfl
  | softwareInterrupt => exact absurd hRequest (request_notMem_interruptTraffic _ _ _ _)
  | call => exact absurd hRequest (request_notMem_pushWordTraffic _ _ _)
  | _ => simp [effectTraffic, (stackAddress_ne_dmaAddress _).symm] at hRequest

/-- A step asks for a transfer once at most, and by its last access. -/
theorem traffic_endsWithRequest {machine : Machine β} {page : UInt8}
    (hRequest : .write dmaAddress page ∈ machine.traffic) :
    Bus.EndsWithRequest machine.traffic page := by
  simp only [traffic] at hRequest ⊢
  split at hRequest
  · simp [wordTraffic] at hRequest
  rename_i hReset
  split at hRequest
  · exact absurd hRequest (request_notMem_interruptTraffic _ _ _ _)
  rename_i hNmi
  split at hRequest
  · exact absurd hRequest (request_notMem_interruptTraffic _ _ _ _)
  rename_i hIrq
  rw [if_neg hReset, if_neg hNmi, if_neg hIrq]
  cases hEffect : (decode (machine.read machine.cpu.pc).1).effect? with
  | none => simp [instructionTraffic, hEffect] at hRequest
  | some effect =>
      let mode := (decode (machine.read machine.cpu.pc).1).mode
      let reads := .read machine.cpu.pc :: machine.behindOpcode.operandTraffic mode
      have hReads (other : UInt8) : .write dmaAddress other ∉ reads := by
        simp [reads, request_notMem_operandTraffic]
      rw [instructionTraffic_eq hEffect, ← List.cons_append] at hRequest ⊢
      obtain hFirst | hSecond := List.mem_append.mp hRequest
      · exact absurd hFirst (hReads page)
      · exact (effectTraffic_endsWithRequest hSecond).prepend hReads

/-- Transfers a page and takes back the request for it. Gives the cycles for which the processor
waits. -/
def transfer (machine : Machine β) (page : UInt8) : UInt64 × Machine β :=
  let (stall, bus) :=
    { machine.bus with dmaPage := none }.runDma page (machine.cpu.cycles % 2 == 0)
  (stall, { machine with bus }.spend stall)

/-- What is pending at the end of a step is a transfer. -/
theorem runPendingDma_of_request {machine : Machine β} {page : UInt8}
    (hPage : machine.bus.dmaPage = some page) : machine.runPendingDma = machine.transfer page := by
  simp only [runPendingDma, Bus.takeDma, hPage, transfer]

theorem bus_transfer (machine : Machine β) (page : UInt8) :
    (machine.transfer page).2.bus =
      ({ machine.bus with dmaPage := none }.runDma page (machine.cpu.cycles % 2 == 0)).2 := by
  simp only [transfer, spend]

theorem dmaPage_transfer (machine : Machine β) (page : UInt8) :
    (machine.transfer page).2.bus.dmaPage = none :=
  Bus.dmaPage_copyToOam _ _ _

/-- A transfer ends at an odd cycle. -/
theorem odd_transfer (machine : Machine β) (page : UInt8) :
    (machine.transfer page).2.cpu.cycles % 2 = 1 :=
  Bus.odd_after_dmaCycles machine.cpu.cycles

/-- A transfer copies every page that is not that of a device. -/
theorem copiesPage_transfer (machine : Machine Nrom) {page : UInt8}
    (hPage : page < 0x20 ∨ 0x40 < page) :
    { machine.bus with dmaPage := none }.CopiesPage (machine.transfer page).2.bus page := by
  rw [bus_transfer]
  exact Bus.copiesPage_runDma (Bus.uniform_page _ hPage) _

section Finish

variable (machine : Machine β) (cycles : UInt64)

theorem dmaPage_sampleInterrupts :
    (machine.runPpu cycles).sampleInterrupts.bus.dmaPage = machine.bus.dmaPage := rfl

theorem oam_sampleInterrupts :
    (machine.runPpu cycles).sampleInterrupts.bus.ppu.oam = machine.bus.ppu.oam :=
  Ppu.oam_run _ _ _

theorem cycles_sampleInterrupts :
    (machine.runPpu cycles).sampleInterrupts.cpu.cycles = machine.cpu.cycles := rfl

end Finish

end Machine

namespace Console

variable {β : Type} [Board β]

/-- A step whose instruction asks for a transfer runs it. -/
theorem step_of_request {console : Console β} {page : UInt8}
    (hRequest : .write dmaAddress page ∈ console.toMachine.traffic) :
    ∃ cycles machine total next, console.toMachine.step = .ok cycles machine ∧
      machine.bus.dmaPage = some page ∧ console.step = .ok total next ∧
      total = cycles + (machine.transfer page).1 ∧
      next.toMachine = ((machine.transfer page).2.runPpu total).sampleInterrupts := by
  cases hStep : console.step with
  | error fault next =>
      rw [(Machine.step_error (step_error hStep)).1] at hRequest
      simp at hRequest
  | ok total next =>
      obtain ⟨cycles, machine, hMachine, hTotal, hNext⟩ := step_ok hStep
      have hPage : machine.bus.dmaPage = some page := by
        rw [(Machine.step_ok hMachine).1]
        exact (Machine.traffic_endsWithRequest hRequest).dmaPage console.bus
      have hTransfer := Machine.runPendingDma_of_request hPage
      refine ⟨cycles, machine, total, next, hMachine, hPage, rfl, ?_, ?_⟩
      · rw [hTotal, hTransfer]
      · rw [hNext, Machine.finishStep, hTransfer, hTotal, hTransfer]

end Console

/-- A sprite transfer copies one page, for every page without registers. An open page fills sprite
memory with the last byte on the bus, and the processor waits for 513 or 514 cycles. In a step that
writes a page to the request register, this is the last access, it is the only such write, and the
page is transferred once before the step ends; then no request is left and the number of cycles is
odd. -/
theorem sprite_transfer_copies_page :
    (∀ (bus : Bus Nrom) (page : UInt8) (evenCycle : Bool), page < 0x20 ∨ 0x40 < page →
      (bus.runDma page evenCycle).1 = (if evenCycle then 513 else 514) ∧
      bus.CopiesPage (bus.runDma page evenCycle).2 page ∧
      (0x40 < page ∧ page < 0x60 →
        ∀ address, (bus.runDma page evenCycle).2.ppu.oam.byte address = bus.latch)) ∧
    ∀ (console : Console Nrom) (page : UInt8),
      .write dmaAddress page ∈ console.toMachine.traffic →
      Bus.EndsWithRequest console.toMachine.traffic page ∧
      ∃ cycles machine total next, console.toMachine.step = .ok cycles machine ∧
        machine.bus.dmaPage = some page ∧ console.step = .ok total next ∧
        total = cycles + (machine.transfer page).1 ∧
        next.toMachine = ((machine.transfer page).2.runPpu total).sampleInterrupts ∧
        next.bus.dmaPage = none ∧ next.cpu.cycles % 2 = 1 ∧
        (page < 0x20 ∨ 0x40 < page → ∀ offset : UInt8,
          next.bus.ppu.oam.byte (machine.bus.ppu.oamAddress + offset) =
            machine.bus.peek (.ofNat (256 * page.toNat + offset.toNat))) := by
  constructor
  · intro bus page evenCycle hPage
    have hCopies := Bus.copiesPage_runDma (bus.uniform_page hPage) evenCycle
    exact ⟨rfl, hCopies, fun hOpen => Bus.byte_of_copiesPage_open hCopies hOpen⟩
  · intro console page hRequest
    obtain ⟨cycles, machine, total, next, hMachine, hPage, hStep, hTotal, hNext⟩ :=
      Console.step_of_request hRequest
    refine ⟨Machine.traffic_endsWithRequest hRequest, cycles, machine, total, next, hMachine, hPage,
      hStep, hTotal, hNext, ?_, ?_, fun hOutside offset => ?_⟩
    · rw [hNext, Machine.dmaPage_sampleInterrupts, Machine.dmaPage_transfer]
    · rw [hNext, Machine.cycles_sampleInterrupts, Machine.odd_transfer]
    · rw [hNext, Machine.oam_sampleInterrupts]
      exact (machine.copiesPage_transfer hOutside).bytes offset

/-- A console before `STA $4014` with zero in the accumulator, and `$5a` at `$0005`. -/
def requesting : Console Nrom where
  cpu := {}
  bus :=
    let cartridge : Cartridge Nrom := { board := ⟨⟨#[], #[], #[], false, .horizontal⟩⟩ }
    let bus : Bus Nrom := { video := { cartridge } }
    (((bus.write 0x0000 0x8d).write 0x0001 0x14).write 0x0002 0x40).write 0x0005 0x5a

/-- A step that requests a transfer of page zero. -/
theorem sprite_transfer_copies_page_requesting :
    .write dmaAddress 0x00 ∈ requesting.toMachine.traffic ∧
    (requesting.bus.runDma 0x00 true).1 = 513 ∧
    (requesting.bus.runDma 0x00 true).2.ppu.oam.byte 0x05 = 0x5a ∧
    ∃ total next, requesting.step = .ok total next ∧ next.bus.ppu.oam.byte 0x05 = 0x5a ∧
      next.cpu.cycles % 2 = 1 := by
  obtain ⟨hBus, hConsole⟩ := sprite_transfer_copies_page
  have hRequest : .write dmaAddress 0x00 ∈ requesting.toMachine.traffic := by decide
  have hStart : requesting.bus.ppu.oamAddress + 0x05 = 0x05 := by decide
  have hPeek : requesting.bus.peek 0x0005 = 0x5a := by decide
  obtain ⟨hStall, hCopies, -⟩ := hBus requesting.bus 0x00 true (.inl (by decide))
  obtain ⟨-, cycles, machine, total, next, hMachine, -, hStep, -, -, -, hOdd, hBytes⟩ :=
    hConsole requesting 0x00 hRequest
  have hFirst := hCopies.bytes 0x05
  rw [hStart] at hFirst
  have hSecond := hBytes (.inl (by decide)) 0x05
  have hPlace : machine.bus.ppu.oamAddress + 0x05 = 0x05 := by
    rw [(Machine.step_ok hMachine).1]
    decide
  have hFound : machine.bus.peek 0x0005 = 0x5a := by
    rw [(Machine.step_ok hMachine).1]
    decide
  rw [hPlace] at hSecond
  exact ⟨hRequest, hStall, hFirst.trans hPeek, total, next, hStep, hSecond.trans hFound, hOdd⟩

end Nes
