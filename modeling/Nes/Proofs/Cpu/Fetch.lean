import Nes.Cpu.Disassembly
import Nes.Cpu.Operand
import Nes.Proofs.Bus.Driven
import Nes.Proofs.Cpu.Traffic

/-! Operands that are found by looking. Where memory answers, a read gives the byte that a look
shows and leaves everything there, so the address of an operand is known before it is fetched. -/

namespace Nes

namespace Bus

variable {β : Type} [Board β] {bus other : Bus β}

/-- Reads that memory answers give what looking shows, in any order. -/
theorem transfers_reads {addresses : List UInt16}
    (hDriven : ∀ address ∈ addresses, bus.Driven address) (hSame : other.SameMemory bus) :
    other.transfers (addresses.map .read) = addresses.map bus.peek := by
  induction addresses generalizing other with
  | nil => rfl
  | cons address addresses ih =>
      obtain ⟨hHere, hRest⟩ := List.forall_mem_cons.mp hDriven
      have hByte : (other.read address).1 = bus.peek address :=
        (hHere.of_same hSame).read_eq.trans (hHere.peek_same hSame)
      rw [List.map_cons, List.map_cons, transfers, transferred, hByte]
      exact congrArg _ (ih hRest (hSame.read address))

end Bus

namespace Cpu

/-- Where the pointer of an instruction is, for the modes that have one, given the bytes behind the
opcode. -/
def AddressingMode.pointer? (mode : AddressingMode) (low : UInt8) (word : UInt16) (x : UInt8) :
    Option UInt16 :=
  match mode with
  | .indirect => some word
  | .indirectX => some (low + x).toUInt16
  | .indirectY => some low.toUInt16
  | _ => none

def ownAddresses (mode : AddressingMode) (pc : UInt16) : List UInt16 :=
  (List.range (1 + mode.operandSize)).map fun offset => pc + .ofNat offset

theorem ownAddresses_eq (mode : AddressingMode) (pc : UInt16) :
    ownAddresses mode pc =
      match mode.operandSize with
      | 0 => [pc]
      | 1 => [pc, pc + 1]
      | _ => [pc, pc + 1, pc + 1 + 1] := by
  have hFirst : pc + .ofNat 0 = pc := UInt16.add_zero pc
  have hThird : pc + .ofNat 2 = pc + 1 + 1 := (UInt16.add_assoc pc 1 1).symm
  cases mode with
  | implied | accumulator => exact congrArg (fun first => [first]) hFirst
  | absolute | absoluteX | absoluteY | indirect =>
      exact congr (congrArg (fun first third => [first, pc + 1, third]) hFirst) hThird
  | _ => exact congrArg (fun first => [first, pc + 1]) hFirst

/-- The effect reads the byte at the operand address, and does not write. -/
def Effect.isLoad : Effect → Bool
  | load _ => true
  | _ => false

/-- Instructions with an immediate operand read it. -/
theorem isLoad_of_immediate (opcode : UInt8) : (decode opcode).mode = .immediate →
    (decode opcode).effect?.all Effect.isLoad = true :=
  forall_decode (p := fun instruction => instruction.mode = .immediate →
    instruction.effect?.all Effect.isLoad = true) (by decide) opcode

namespace Disassembly

/-- The address that an instruction at the program counter works on, as looking at memory shows
it. -/
def operandAddress (mode : AddressingMode) (cpu : Cpu) (peek : UInt16 → UInt8) : UInt16 :=
  let low := peek (cpu.pc + 1)
  let word := wordAt peek (cpu.pc + 1)
  match mode with
  | .implied | .accumulator => 0
  | .immediate => cpu.pc + 1
  | .zeroPage => low.toUInt16
  | .zeroPageX => (low + cpu.x).toUInt16
  | .zeroPageY => (low + cpu.y).toUInt16
  | .absolute => word
  | .absoluteX => word + cpu.x.toUInt16
  | .absoluteY => word + cpu.y.toUInt16
  | .indirect => wordInPageAt peek word
  | .indirectX => wordInPageAt peek (low + cpu.x).toUInt16
  | .indirectY => wordInPageAt peek low.toUInt16 + cpu.y.toUInt16
  | .relative => cpu.pc + 2 + signedOffset low

/-- The operand of an instruction, as looking at memory shows it, given where the bytes behind the
opcode are. -/
def operandAt (mode : AddressingMode) (place : UInt16) (registers : Registers)
    (peek : UInt16 → UInt8) : Operand :=
  let low := peek place
  let word := wordAt peek place
  match mode with
  | .implied | .accumulator => {}
  | .immediate => { address := place }
  | .zeroPage => { address := (low + 0).toUInt16 }
  | .zeroPageX => { address := (low + registers.x).toUInt16 }
  | .zeroPageY => { address := (low + registers.y).toUInt16 }
  | .absolute => .indexed word (0 : UInt8).toUInt16
  | .absoluteX => .indexed word registers.x.toUInt16
  | .absoluteY => .indexed word registers.y.toUInt16
  | .indirect => { address := wordInPageAt peek word }
  | .indirectX => { address := wordInPageAt peek (low + registers.x).toUInt16 }
  | .indirectY => .indexed (wordInPageAt peek low.toUInt16) registers.y.toUInt16
  | .relative => .indexed (place + 1) (signedOffset low)

/-- The address of an operand depends on the bytes behind the opcode and on the registers. -/
theorem address_operandAt (mode : AddressingMode) (cpu : Cpu) (peek : UInt16 → UInt8) :
    (operandAt mode (cpu.pc + 1) cpu.toRegisters peek).address = operandAddress mode cpu peek := by
  cases mode with
  | zeroPage => exact congrArg UInt8.toUInt16 (UInt8.add_zero _)
  | absolute => exact UInt16.add_zero _
  | relative =>
      have hBehind : cpu.pc + 1 + 1 = cpu.pc + 2 := UInt16.add_assoc cpu.pc 1 1
      exact congrArg (· + signedOffset (peek (cpu.pc + 1))) hBehind
  | _ => rfl

end Disassembly

end Cpu

namespace Bus

open Cpu Cpu.Disassembly

variable {β : Type} [Board β] {bus : Bus β}

/-- Memory answers at the bytes behind an opcode, which start at a place, and at those of the
pointer that they may name. A pointer in page zero is in work memory anyway. -/
structure HoldsOperand (bus : Bus β) (mode : AddressingMode) (place : UInt16) : Prop where
  bytes : ∀ offset < mode.operandSize, bus.Driven (place + .ofNat offset)
  pointer : mode = .indirect →
    bus.Driven (wordAt bus.peek place) ∧ bus.Driven (nextInPage (wordAt bus.peek place))

theorem HoldsOperand.first {mode : AddressingMode} {place : UInt16}
    (hHolds : bus.HoldsOperand mode place) (hSize : 0 < mode.operandSize) : bus.Driven place := by
  have hPlace : place + .ofNat 0 = place := UInt16.add_zero place
  rw [← hPlace]
  exact hHolds.bytes 0 hSize

/-- Page zero is driven, also where it wraps around. -/
theorem driven_pageZero (low : UInt8) :
    bus.Driven low.toUInt16 ∧ bus.Driven (nextInPage low.toUInt16) := by
  have hLt := low.toNat_lt
  refine ⟨.inl ?_, .inl ?_⟩
  · rw [UInt16.lt_iff_toNat_lt, UInt8.toNat_toUInt16]
    exact Nat.lt_trans hLt (by decide)
  · rw [UInt16.lt_iff_toNat_lt, nextInPage, pageOf, UInt8.toNat_toUInt16, UInt16.toNat_ofNat',
      Nat.div_eq_of_lt hLt]
    exact show (0x100 * 0 + (low.toNat + 1) % 0x100) % 0x10000 < 0x2000 by omega

end Bus

namespace Machine

open Cpu Cpu.Disassembly
open Bus (Access)

variable {β : Type} [Board β]

/-- Memory answers at all addresses that an instruction at the program counter takes bytes from
before it works on its operand: those of its own bytes, and those of its pointer. -/
structure Shows (machine : Machine β) (mode : AddressingMode) : Prop where
  own : ∀ address ∈ ownAddresses mode machine.cpu.pc, machine.bus.Driven address
  pointer : ∀ pointer,
    mode.pointer? (machine.bus.peek (machine.cpu.pc + 1))
      (wordAt machine.bus.peek (machine.cpu.pc + 1)) machine.cpu.x = some pointer →
    machine.bus.Driven pointer ∧ machine.bus.Driven (nextInPage pointer)

/-- Memory that shows an instruction shows each of its bytes. -/
theorem Shows.at {machine : Machine β} {mode : AddressingMode} (hShows : machine.Shows mode)
    {offset : Nat} (hOffset : offset ≤ mode.operandSize) :
    machine.bus.Driven (machine.cpu.pc + .ofNat offset) :=
  hShows.own _ (List.mem_map.mpr ⟨offset, List.mem_range.mpr (Nat.lt_one_add_iff.mpr hOffset), rfl⟩)

theorem Shows.pc {machine : Machine β} {mode : AddressingMode} (hShows : machine.Shows mode) :
    machine.bus.Driven machine.cpu.pc := by
  have hFirst : machine.cpu.pc + .ofNat 0 = machine.cpu.pc := UInt16.add_zero _
  rw [← hFirst]
  exact hShows.at (Nat.zero_le _)

/-- Memory that shows an instruction holds its operand. -/
theorem Shows.holdsOperand {machine : Machine β} {mode : AddressingMode}
    (hShows : machine.Shows mode) : machine.bus.HoldsOperand mode (machine.cpu.pc + 1) where
  bytes := by
    intro offset hOffset
    have hPlace : machine.cpu.pc + 1 + .ofNat offset = machine.cpu.pc + .ofNat (offset + 1) := by
      rw [UInt16.add_assoc, Nat.add_comm offset, UInt16.ofNat_add]
      rfl
    rw [hPlace]
    exact hShows.at hOffset
  pointer := by
    rintro rfl
    exact hShows.pointer _ rfl

section Reads

variable {machine : Machine β} {bus : Bus β} {address : UInt16}

/-- A driven byte is read as it was peeked, as long as memory stays as it is. -/
theorem fst_read (hSame : machine.bus.SameMemory bus) (hDriven : bus.Driven address) :
    (machine.read address).1 = bus.peek address :=
  (hDriven.of_same hSame).read_eq.trans (hDriven.peek_same hSame)

theorem fst_readWord (hSame : machine.bus.SameMemory bus) (hLow : bus.Driven address)
    (hHigh : bus.Driven (address + 1)) :
    (machine.readWord address).1 = wordAt bus.peek address := by
  simp only [readWord, wordAt]
  rw [fst_read hSame hLow, fst_read (hSame.read address) hHigh]

theorem fst_readWordInPage (hSame : machine.bus.SameMemory bus) (hLow : bus.Driven address)
    (hHigh : bus.Driven (nextInPage address)) :
    (machine.readWordInPage address).1 = wordInPageAt bus.peek address := by
  simp only [readWordInPage, wordInPageAt]
  rw [fst_read hSame hLow, fst_read (hSame.read address) hHigh]

end Reads

/-- The processor behind the opcode, before it fetches the operand. -/
def behindOpcode (machine : Machine β) : Machine β :=
  (machine.read machine.cpu.pc).2.goto (machine.cpu.pc + 1)

/-- An instruction with a dependable effect reads its opcode, fetches its operand and then has its
effect. -/
theorem instructionTraffic_eq {machine : Machine β} {effect : Effect}
    (hEffect : (decode (machine.read machine.cpu.pc).1).effect? = some effect) :
    let mode := (decode (machine.read machine.cpu.pc).1).mode
    let fetched := machine.behindOpcode.fetchOperand mode
    machine.instructionTraffic = .read machine.cpu.pc ::
      (machine.behindOpcode.operandTraffic mode ++
        fetched.2.effectTraffic effect fetched.1) := by
  simp only [instructionTraffic, hEffect]
  rfl

/-- Fetching an operand leaves all registers alone. -/
theorem registers_fetchOperand (machine : Machine β) (mode : AddressingMode) :
    (machine.behindOpcode.fetchOperand mode).2.cpu.toRegisters = machine.cpu.toRegisters := by
  cases mode <;> rfl

/-- An instruction with a dependable effect fetches its operand, has its effect, and then its cycles
are counted. -/
theorem stepInstruction_eq (machine : Machine β) {effect : Effect}
    (hEffect : (decode (machine.read machine.cpu.pc).1).effect? = some effect) :
    machine.stepInstruction =
      let instruction := decode (machine.read machine.cpu.pc).1
      let fetched := machine.behindOpcode.fetchOperand instruction.mode
      let cycles := instruction.cost effect fetched.1 fetched.2.cpu.flags
      .ok cycles ((fetched.2.perform effect fetched.1).spend cycles) := by
  simp only [stepInstruction, hEffect]
  rfl

/-- Fetching an operand moves past the bytes behind the opcode. -/
theorem pc_fetchOperand (machine : Machine β) (mode : AddressingMode) :
    (machine.fetchOperand mode).2.cpu.pc = machine.cpu.pc + .ofNat mode.operandSize := by
  cases mode with
  | implied | accumulator => exact (UInt16.add_zero _).symm
  | _ => rfl

section Operands

variable {machine : Machine β} {mode : AddressingMode}

theorem sameMemory_behindOpcode (machine : Machine β) :
    machine.behindOpcode.bus.SameMemory machine.bus :=
  Bus.SameMemory.read ⟨rfl, rfl⟩ machine.cpu.pc

theorem sameMemory_fetchByte (machine : Machine β) :
    machine.behindOpcode.fetchByte.2.bus.SameMemory machine.bus :=
  machine.sameMemory_behindOpcode.read machine.behindOpcode.cpu.pc

theorem sameMemory_fetchWord (machine : Machine β) :
    machine.behindOpcode.fetchWord.2.bus.SameMemory machine.bus :=
  (machine.sameMemory_behindOpcode.read machine.behindOpcode.cpu.pc).read
    (machine.behindOpcode.cpu.pc + 1)

/-- The operand of an instruction is the one that looking shows, if memory answers. -/
theorem fst_fetchOperand {bus : Bus β} (hSame : machine.bus.SameMemory bus)
    (hHolds : bus.HoldsOperand mode machine.cpu.pc) :
    (machine.fetchOperand mode).1 =
      operandAt mode machine.cpu.pc machine.cpu.toRegisters bus.peek := by
  have hLow (hSize : 0 < mode.operandSize) : machine.fetchByte.1 = bus.peek machine.cpu.pc :=
    fst_read hSame (hHolds.first hSize)
  have hWord (hSize : 1 < mode.operandSize) :
      machine.fetchWord.1 = wordAt bus.peek machine.cpu.pc :=
    fst_readWord hSame (hHolds.first (Nat.zero_lt_of_lt hSize)) (hHolds.bytes 1 hSize)
  have hBehind : machine.fetchByte.2.bus.SameMemory bus := hSame.read machine.cpu.pc
  have hPageZero (low : UInt8) : (machine.fetchByte.2.readWordInPage low.toUInt16).1 =
      wordInPageAt bus.peek low.toUInt16 :=
    fst_readWordInPage hBehind (Bus.driven_pageZero low).1 (Bus.driven_pageZero low).2
  cases mode with
  | implied | accumulator | immediate => rfl
  | zeroPage | zeroPageX | zeroPageY =>
      simp only [fetchOperand, fetchZeroPage, operandAt]
      rw [hLow (by decide)]
  | absolute | absoluteX | absoluteY =>
      simp only [fetchOperand, fetchAbsolute, operandAt]
      rw [hWord (by decide)]
  | indirect =>
      have hBehindWord : machine.fetchWord.2.bus.SameMemory bus :=
        hBehind.read (machine.cpu.pc + 1)
      obtain ⟨hFirst, hSecond⟩ := hHolds.pointer rfl
      simp only [fetchOperand, operandAt]
      rw [hWord (by decide), fst_readWordInPage hBehindWord hFirst hSecond]
  | indirectX =>
      simp only [fetchOperand, operandAt]
      rw [hLow (by decide), hPageZero]
      rfl
  | indirectY =>
      simp only [fetchOperand, operandAt]
      rw [hLow (by decide), hPageZero]
      rfl
  | relative =>
      simp only [fetchOperand, operandAt]
      rw [hLow (by decide)]
      rfl

/-- The fetched operand is at the address that looking shows. -/
theorem address_fetchOperand (hShows : machine.Shows mode) :
    (machine.behindOpcode.fetchOperand mode).1.address =
      operandAddress mode machine.cpu machine.bus.peek := by
  rw [← address_operandAt]
  exact congrArg Operand.address
    (fst_fetchOperand machine.sameMemory_behindOpcode hShows.holdsOperand)

/-- Fetching an operand writes to no memory. -/
theorem sameMemory_fetchOperand (machine : Machine β) (mode : AddressingMode) :
    (machine.behindOpcode.fetchOperand mode).2.bus.SameMemory machine.bus := by
  cases mode with
  | implied | accumulator | immediate => exact machine.sameMemory_behindOpcode
  | zeroPage | zeroPageX | zeroPageY | relative => exact machine.sameMemory_fetchByte
  | absolute | absoluteX | absoluteY => exact machine.sameMemory_fetchWord
  | indirect => exact (machine.sameMemory_fetchWord.read _).read _
  | indirectX | indirectY => exact (machine.sameMemory_fetchByte.read _).read _

/-- The reads of an instruction's own bytes. -/
def ownTraffic (machine : Machine β) (mode : AddressingMode) : List Access :=
  (ownAddresses mode machine.cpu.pc).map Access.read

/-- The bytes that an instruction reads first are those that memory shows. -/
theorem transfers_ownTraffic (hShows : machine.Shows mode) :
    machine.bus.transfers (machine.ownTraffic mode) =
      (ownAddresses mode machine.cpu.pc).map machine.bus.peek :=
  Bus.transfers_reads hShows.own ⟨rfl, rfl⟩

/-- An operand that is not immediate is fetched right behind the opcode. -/
theorem ownTraffic_prefix_operand (machine : Machine β) (hMode : mode ≠ .immediate) :
    machine.ownTraffic mode <+:
      .read machine.cpu.pc :: machine.behindOpcode.operandTraffic mode := by
  rw [ownTraffic, ownAddresses_eq]
  cases mode with
  | immediate => exact absurd rfl hMode
  | implied | accumulator => exact List.prefix_refl _
  | _ => exact List.prefix_append _ _

/-- The reads of an instruction's own bytes come first, if it has a dependable effect. An immediate
operand is read by the effect. -/
theorem ownTraffic_prefix (machine : Machine β) :
    let instruction := decode (machine.read machine.cpu.pc).1
    instruction.effect?.isSome = true →
      machine.ownTraffic instruction.mode <+: machine.instructionTraffic := by
  intro instruction hSome
  obtain ⟨effect, hEffect⟩ := Option.isSome_iff_exists.mp hSome
  rw [instructionTraffic_eq hEffect]
  by_cases hMode : instruction.mode = .immediate
  · have hLoad := isLoad_of_immediate _ hMode
    rw [hEffect] at hLoad
    cases effect with
    | load apply =>
        rw [hMode, ownTraffic, ownAddresses_eq]
        exact List.prefix_refl _
    | _ => cases hLoad
  · exact (machine.ownTraffic_prefix_operand hMode).trans (List.prefix_append _ _)

end Operands

end Machine

end Nes
