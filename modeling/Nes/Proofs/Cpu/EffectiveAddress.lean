import Nes.Proofs.Cpu.Timing

/-! The addresses that instructions work on. The published rules give them as numbers, and say where
they wrap around: in page zero, inside the page of a pointer, and at the end of the address space.
-/

namespace Nes

namespace Cpu

/-- The signed number that a byte encodes. -/
def signedNumber (byte : Nat) : Int :=
  if byte < 128 then byte else byte - 256

/-- What the address of an operand depends on, as numbers. -/
structure Surroundings where
  /-- Where the bytes behind the opcode are. -/
  place : Nat
  x : Nat
  y : Nat
  /-- The byte at an address. Addresses repeat after `$ffff`. -/
  byteAt : Nat → Nat

namespace Surroundings

/-- The first byte behind the opcode. -/
def low (found : Surroundings) : Nat :=
  found.byteAt found.place

/-- The two bytes behind the opcode. -/
def word (found : Surroundings) : Nat :=
  256 * found.byteAt (found.place + 1) + found.low

/-- The word in page zero whose low byte is at an address. -/
def pageZeroWord (found : Surroundings) (address : Nat) : Nat :=
  256 * found.byteAt ((address + 1) % 256) + found.byteAt (address % 256)

/-- The word whose low byte is at an address and whose high byte is on the same page. Behind the end
of a page follows its start. -/
def pagedWord (found : Surroundings) (address : Nat) : Nat :=
  256 * found.byteAt (256 * (address / 256) + (address % 256 + 1) % 256) + found.byteAt address

/-- Where a branch goes. The byte behind the opcode is a signed number. -/
def target (found : Surroundings) : Nat :=
  ((found.place + 1 + signedNumber found.low) % 65536).toNat

end Surroundings

namespace AddressingMode

/-- The published address of an operand. -/
def published (mode : AddressingMode) (found : Surroundings) : Nat :=
  match mode with
  | implied | accumulator => 0
  | immediate => found.place
  | zeroPage => found.low % 256
  | zeroPageX => (found.low + found.x) % 256
  | zeroPageY => (found.low + found.y) % 256
  | absolute => found.word % 65536
  | absoluteX => (found.word + found.x) % 65536
  | absoluteY => (found.word + found.y) % 65536
  | indirect => found.pagedWord found.word
  | indirectX => found.pageZeroWord (found.low + found.x)
  | indirectY => (found.pageZeroWord found.low + found.y) % 65536
  | relative => found.target

/-- The address of an operand is on another page than its base. For a branch, the base is the
address of the next instruction. -/
def crosses (mode : AddressingMode) (found : Surroundings) : Bool :=
  match mode with
  | absoluteX => decide (255 < found.low + found.x)
  | absoluteY => decide (255 < found.low + found.y)
  | indirectY => decide (255 < found.byteAt found.low + found.y)
  | relative => found.target / 256 != (found.place + 1) % 65536 / 256
  | _ => false

end AddressingMode

/-- A word has its upper byte in front. -/
theorem toNat_wordOf (low high : UInt8) :
    (wordOf low high).toNat = 256 * high.toNat + low.toNat := by
  have hLow := low.toNat_lt
  have hHigh := high.toNat_lt
  rw [wordOf, UInt16.toNat_ofNat']
  omega

/-- The address behind another one on page zero. -/
theorem nextInPage_pageZero (low : UInt8) :
    nextInPage low.toUInt16 = .ofNat ((low.toNat + 1) % 256) := by
  have hPage : pageOf low.toUInt16 = 0 := Nat.div_eq_of_lt low.toNat_lt
  rw [nextInPage, hPage, Nat.mul_zero, Nat.zero_add, UInt8.toNat_toUInt16]

/-- A signed byte moves an address by its signed number. -/
theorem toNat_add_signedOffset (base : UInt16) (distance : UInt8) :
    (base + signedOffset distance).toNat =
      ((base.toNat + signedNumber distance.toNat) % 65536).toNat := by
  have hDistance := distance.toNat_lt
  rw [signedOffset, signedNumber, UInt16.toNat_add]
  by_cases hForward : distance < 0x80
  · have hSmall : distance.toNat < 128 := hForward
    rw [if_pos hForward, if_pos hSmall, UInt8.toNat_toUInt16]
    omega
  · have hLarge : ¬distance.toNat < 128 := hForward
    have hOffset : (distance.toUInt16 + 0xff00).toNat = distance.toNat + 0xff00 := by
      rw [UInt16.toNat_add, UInt8.toNat_toUInt16]
      exact Nat.mod_eq_of_lt (show distance.toNat + 0xff00 < 65536 by omega)
    rw [if_neg hForward, if_neg hLarge, hOffset]
    omega

namespace Disassembly

variable {registers : Registers} {place : UInt16} {peek : UInt16 → UInt8}

/-- What an operand is computed from, as looking at memory shows it. -/
def surroundings (registers : Registers) (place : UInt16) (peek : UInt16 → UInt8) :
    Surroundings where
  place := place.toNat
  x := registers.x.toNat
  y := registers.y.toNat
  byteAt := fun address => (peek (.ofNat address)).toNat

theorem byteAt_surroundings (address : UInt16) :
    (surroundings registers place peek).byteAt address.toNat = (peek address).toNat :=
  congrArg (fun address => (peek address).toNat) UInt16.ofNat_toNat

theorem low_surroundings :
    (surroundings registers place peek).low = (peek place).toNat :=
  byteAt_surroundings place

theorem word_surroundings :
    (surroundings registers place peek).word = (wordAt peek place).toNat := by
  have hBehind : UInt16.ofNat (place.toNat + 1) = place + 1 := by
    rw [UInt16.ofNat_add, UInt16.ofNat_toNat]
    rfl
  rw [Surroundings.word, low_surroundings, wordAt, toNat_wordOf, ← hBehind]
  rfl

theorem pagedWord_surroundings (address : UInt16) :
    (surroundings registers place peek).pagedWord address.toNat =
      (wordInPageAt peek address).toNat := by
  have hBeside : nextInPage address =
      .ofNat (256 * (address.toNat / 256) + (address.toNat % 256 + 1) % 256) := by
    rw [nextInPage, pageOf, Nat.mod_add_mod]
  rw [wordInPageAt, toNat_wordOf, hBeside, Surroundings.pagedWord, byteAt_surroundings]
  rfl

/-- A pointer in page zero may be given by a number that is too large for it. -/
theorem pageZeroWord_surroundings (low : UInt8) {address : Nat}
    (hLow : low.toNat = address % 256) :
    (surroundings registers place peek).pageZeroWord address =
      (wordInPageAt peek low.toUInt16).toNat := by
  have hFirst : UInt16.ofNat (address % 256) = low.toUInt16 := by
    rw [← hLow]
    exact (UInt16.ofNat_toNat (x := low.toUInt16))
  have hSecond : UInt16.ofNat ((address + 1) % 256) = nextInPage low.toUInt16 := by
    rw [nextInPage_pageZero, hLow, Nat.mod_add_mod]
  rw [wordInPageAt, toNat_wordOf, ← hSecond, ← hFirst]
  rfl

/-- The target of a branch, in plain numbers. -/
theorem target_surroundings :
    (surroundings registers place peek).target =
      (place + 1 + signedOffset (peek place)).toNat := by
  have hBehind : (place + 1).toNat = (place.toNat + 1) % 65536 := by
    rw [UInt16.toNat_add]
    rfl
  have hWraps (base : Nat) (distance : Int) : ((base + 1 + distance) % 65536).toNat =
      ((((base + 1) % 65536 : Nat) + distance) % 65536).toNat := by
    omega
  rw [toNat_add_signedOffset, hBehind, Surroundings.target, low_surroundings]
  exact hWraps place.toNat _

/-- The operand that looking shows is at the published address. -/
theorem toNat_address_operandAt (mode : AddressingMode) :
    (operandAt mode place registers peek).address.toNat =
      mode.published (surroundings registers place peek) := by
  have hLow : (surroundings registers place peek).low = (peek place).toNat := low_surroundings
  have hWord : (surroundings registers place peek).word = (wordAt peek place).toNat :=
    word_surroundings
  cases mode with
  | implied | accumulator | immediate => rfl
  | zeroPage | zeroPageX | zeroPageY =>
      rw [AddressingMode.published, hLow]
      exact UInt8.toNat_add _ _
  | absolute | absoluteX | absoluteY =>
      rw [AddressingMode.published, hWord]
      exact UInt16.toNat_add _ _
  | indirect =>
      rw [AddressingMode.published, hWord, pagedWord_surroundings]
      rfl
  | indirectX =>
      rw [AddressingMode.published, hLow]
      exact (congrArg UInt16.toNat rfl).trans
        (pageZeroWord_surroundings (peek place + registers.x) (UInt8.toNat_add _ _)).symm
  | indirectY =>
      rw [AddressingMode.published, hLow,
        pageZeroWord_surroundings (peek place) (Nat.mod_eq_of_lt (peek place).toNat_lt).symm]
      exact UInt16.toNat_add _ _
  | relative =>
      rw [AddressingMode.published, target_surroundings]
      rfl

theorem toNat_wordOf_mod (low high : UInt8) : (wordOf low high).toNat % 256 = low.toNat := by
  have hLow := low.toNat_lt
  rw [toNat_wordOf]
  omega

/-- Looking notices a carry into the upper byte of the address, and a branch to another page. -/
theorem pageCrossed_operandAt (mode : AddressingMode) :
    (operandAt mode place registers peek).pageCrossed =
      mode.crosses (surroundings registers place peek) := by
  have hLow : (surroundings registers place peek).low = (peek place).toNat := low_surroundings
  have hIndexed (low high index : UInt8) :
      (Operand.indexed (wordOf low high) index.toUInt16).pageCrossed =
        decide (255 < low.toNat + index.toNat) := by
    rw [pageCrossed_indexed, carriesInto, toNat_wordOf_mod]
  cases mode with
  | absolute => exact (pageCrossed_indexed _ 0).trans (carriesInto_zero _)
  | absoluteX | absoluteY =>
      rw [AddressingMode.crosses, hLow]
      exact hIndexed _ _ _
  | indirectY =>
      have hPointer : (surroundings registers place peek).byteAt (peek place).toNat =
          (peek (peek place).toUInt16).toNat := byteAt_surroundings (peek place).toUInt16
      rw [AddressingMode.crosses, hLow, hPointer]
      exact hIndexed _ _ _
  | relative =>
      have hBehind : (place + 1).toNat = (place.toNat + 1) % 65536 := by
        rw [UInt16.toNat_add]
        rfl
      rw [AddressingMode.crosses, target_surroundings, surroundings, ← hBehind, bne_comm]
      rfl
  | _ => rfl

end Disassembly

end Cpu

namespace Machine

open Cpu Cpu.Disassembly

variable {β : Type} [Board β]

/-- Operands are at the published addresses. Where memory answers at the bytes behind the opcode and
at those of a pointer that they name, the processor finds the operand at the address that the rules
of its addressing mode give for the bytes that looking shows. It notices exactly those operands that
indexing carries to another page, and branches to another page than that of the next instruction.
The program counter moves past the bytes behind the opcode. -/
theorem operand_as_published (machine : Machine β) (mode : AddressingMode)
    (hHolds : machine.bus.HoldsOperand mode machine.cpu.pc) :
    let found := surroundings machine.cpu.toRegisters machine.cpu.pc machine.bus.peek
    let fetched := machine.fetchOperand mode
    fetched.1.address.toNat = mode.published found ∧
      fetched.1.pageCrossed = mode.crosses found ∧
      fetched.2.cpu.pc = machine.cpu.pc + .ofNat mode.operandSize := by
  intro found fetched
  have hOperand : fetched.1 =
      operandAt mode machine.cpu.pc machine.cpu.toRegisters machine.bus.peek :=
    fst_fetchOperand ⟨rfl, rfl⟩ hHolds
  refine ⟨?_, ?_, machine.pc_fetchOperand mode⟩
  · rw [hOperand]
    exact toNat_address_operandAt mode
  · rw [hOperand]
    exact pageCrossed_operandAt mode

/-- A machine whose program counter is at the end of the address space, before the bytes `$ff` and
`$02`. There are `$34` at `$02ff`, `$12` at `$0200`, and `$f0` at `$00ff`. -/
def atTheEnd : Machine Nrom where
  cpu := { pc := 0xffff, y := 0x20 }
  bus :=
    let cartridge : Cartridge Nrom := { board := ⟨⟨#[0xff], #[], #[], false, .horizontal⟩⟩ }
    let bus : Bus Nrom := { video := { cartridge } }
    (((bus.write 0x0000 0x02).write 0x00ff 0xf0).write 0x0200 0x12).write 0x02ff 0x34

/-- An indirect jump and an indexed address that wrap around at the end of a page. -/
theorem operand_as_published_atTheEnd :
    atTheEnd.bus.HoldsOperand .indirect atTheEnd.cpu.pc ∧
    (atTheEnd.fetchOperand .indirect).1.address.toNat = 0x1234 ∧
    (atTheEnd.fetchOperand .indirect).2.cpu.pc = 0x0001 ∧
    atTheEnd.bus.HoldsOperand .indirectY atTheEnd.cpu.pc ∧
    (atTheEnd.fetchOperand .indirectY).1.address.toNat = 0x0310 ∧
    (atTheEnd.fetchOperand .indirectY).1.pageCrossed = true ∧
    atTheEnd.bus.HoldsOperand .relative atTheEnd.cpu.pc ∧
    (atTheEnd.fetchOperand .relative).1.address.toNat = 0xffff ∧
    (atTheEnd.fetchOperand .relative).1.pageCrossed = true := by
  have hIndirect : atTheEnd.bus.HoldsOperand .indirect atTheEnd.cpu.pc :=
    ⟨by decide, fun _ => by decide⟩
  have hIndirectY : atTheEnd.bus.HoldsOperand .indirectY atTheEnd.cpu.pc :=
    ⟨by decide, fun hMode => by cases hMode⟩
  have hRelative : atTheEnd.bus.HoldsOperand .relative atTheEnd.cpu.pc :=
    ⟨by decide, fun hMode => by cases hMode⟩
  obtain ⟨hPointer, -, hBehind⟩ := operand_as_published atTheEnd .indirect hIndirect
  obtain ⟨hIndexed, hCarries, -⟩ := operand_as_published atTheEnd .indirectY hIndirectY
  obtain ⟨hTarget, hLeaves, -⟩ := operand_as_published atTheEnd .relative hRelative
  exact ⟨hIndirect, hPointer.trans (by decide +kernel), hBehind.trans (by decide), hIndirectY,
    hIndexed.trans (by decide +kernel), hCarries.trans (by decide +kernel), hRelative,
    hTarget.trans (by decide +kernel), hLeaves.trans (by decide +kernel)⟩

end Machine

end Nes
