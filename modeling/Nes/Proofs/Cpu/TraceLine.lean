import Nes.Proofs.Cpu.Fetch

/-! The line that shows an instruction, in terms of what the processor fetches. Its columns are the
address, the bytes, the name, the operand with the address that it works on, and the registers. -/

namespace Nes.Cpu

/-- The operand is in page zero, so that two digits give its address. -/
def AddressingMode.inPageZero : AddressingMode → Bool
  | zeroPage | zeroPageX | zeroPageY => true
  | _ => false

/-- A line shows the byte that the instruction works on. Jumps and branches have none, and neither
have instructions without an operand. -/
def Instruction.showsByte (instruction : Instruction) : Bool :=
  match instruction.mode with
  | .implied | .accumulator | .indirect | .relative => false
  | .absolute => !decide (instruction.mnemonic = .jmp ∨ instruction.mnemonic = .jsr)
  | _ => true

namespace Disassembly

/-- The address of an operand as a line shows it. -/
def shownAddress (mode : AddressingMode) (address : UInt16) : List Char :=
  if mode.inPageZero then Hex.byte (lowByte address) else Hex.word address

/-- What stands before the address of an operand, given the bytes of the instruction: the operand as
it is written in a program, and the pointer or the base that the address comes from. -/
def beforeAddress (mode : AddressingMode) (registers : Registers) (bytes : List UInt8)
    (address : UInt16) : List Char :=
  let low := bytes.getD 1 0
  let word := wordOf low (bytes.getD 2 0)
  match mode with
  | .implied | .accumulator | .immediate => []
  | .zeroPage | .absolute | .relative => ['$']
  | .zeroPageX => zeroPageText low ++ ",X @ ".toList
  | .zeroPageY => zeroPageText low ++ ",Y @ ".toList
  | .absoluteX => addressText word ++ ",X @ ".toList
  | .absoluteY => addressText word ++ ",Y @ ".toList
  | .indirect => "(".toList ++ addressText word ++ ") = ".toList
  | .indirectX =>
    "(".toList ++ zeroPageText low ++ ",X) @ ".toList ++ Hex.byte (low + registers.x) ++
      " = ".toList
  | .indirectY =>
    "(".toList ++ zeroPageText low ++ "),Y = ".toList ++
      Hex.word (address - registers.y.toUInt16) ++ " @ ".toList

/-- The operand of an instruction with the address that it works on and the byte there. An immediate
operand is shown as the byte alone. -/
def shownOperand (instruction : Instruction) (registers : Registers) (bytes : List UInt8)
    (address : UInt16) (byte : UInt8) : List Char :=
  match instruction.mode with
  | .implied => []
  | .accumulator => ['A']
  | .immediate => "#$".toList ++ Hex.byte byte
  | mode =>
    beforeAddress mode registers bytes address ++ shownAddress mode address ++
      if instruction.showsByte then " = ".toList ++ Hex.byte byte else []

def bytesAt (mode : AddressingMode) (pc : UInt16) (peek : UInt16 → UInt8) : List UInt8 :=
  (ownAddresses mode pc).map peek

/-- The columns that show an instruction: its address, its bytes, its name and its operand. -/
def instructionColumns (instruction : Instruction) (pc : UInt16) (bytes : List UInt8)
    (operand : List Char) : List Char :=
  Hex.word pc ++ "  ".toList ++ ([' '].intercalate (bytes.map Hex.byte)).rightpad 8 ' ' ++ [' '] ++
    instruction.name.toList.leftpad 4 ' ' ++ [' '] ++ operand

/-- The columns of a line. Those of the registers start at a fixed place. -/
def columns (instruction : Instruction) (cpu : Cpu) (bytes : List UInt8) (operand : List Char) :
    List Char :=
  (instructionColumns instruction cpu.pc bytes operand).rightpad 47 ' ' ++ registersText cpu

theorem lowByte_toUInt16 (byte : UInt8) : lowByte byte.toUInt16 = byte := by
  rw [lowByte, UInt8.toNat_toUInt16, Nat.mod_eq_of_lt byte.toNat_lt, UInt8.ofNat_toNat]

/-- All that is cut off at the end of a text is blanks. -/
theorem exists_trimEnd_append (text : List Char) :
    ∃ cut, text = trimEnd text ++ List.replicate cut ' ' := by
  let blanks := text.reverse.takeWhile (· == ' ')
  have hBlanks : blanks = List.replicate blanks.length ' ' := by
    refine List.eq_replicate_iff.mpr ⟨rfl, fun char hChar => ?_⟩
    have hAll : blanks.all (· == ' ') = true := List.all_takeWhile
    exact eq_of_beq (List.all_eq_true.mp hAll char hChar)
  refine ⟨blanks.length, ?_⟩
  calc text = (blanks ++ text.reverse.dropWhile (· == ' ')).reverse := by
        rw [List.takeWhile_append_dropWhile, List.reverse_reverse]
    _ = trimEnd text ++ blanks.reverse := List.reverse_append
    _ = trimEnd text ++ List.replicate blanks.length ' ' := by
        rw [hBlanks, List.reverse_replicate, List.length_replicate]

/-- Padding makes up for blanks that were cut off. -/
theorem rightpad_trimEnd {text : List Char} {width : Nat} (hWidth : text.length ≤ width) :
    (trimEnd text).rightpad width ' ' = text.rightpad width ' ' := by
  obtain ⟨cut, hCut⟩ := exists_trimEnd_append text
  have hLength := congrArg List.length hCut
  rw [List.length_append, List.length_replicate] at hLength
  have hMissing : width - (trimEnd text).length = cut + (width - text.length) := by omega
  calc (trimEnd text).rightpad width ' '
    _ = trimEnd text ++ List.replicate cut ' ' ++ List.replicate (width - text.length) ' ' := by
        rw [List.rightpad, hMissing, ← List.replicate_append_replicate, List.append_assoc]
    _ = text.rightpad width ' ' := by
        rw [← hCut, List.rightpad]

/-- The bytes of an instruction, one by one. -/
theorem getD_bytesAt {mode : AddressingMode} {offset : Nat} (hOffset : offset ≤ mode.operandSize)
    (pc : UInt16) (peek : UInt16 → UInt8) :
    (bytesAt mode pc peek).getD offset 0 = peek (pc + .ofNat offset) := by
  have hInside : offset < 1 + mode.operandSize := Nat.lt_one_add_iff.mpr hOffset
  simp [bytesAt, ownAddresses, hInside]

/-- The operand that a line shows is the one at the address that looking shows. -/
theorem operandText_eq (instruction : Instruction) (cpu : Cpu) (peek : UInt16 → UInt8) :
    operandText instruction cpu peek =
      shownOperand instruction cpu.toRegisters (bytesAt instruction.mode cpu.pc peek)
        (operandAddress instruction.mode cpu peek)
        (peek (operandAddress instruction.mode cpu peek)) := by
  have hFirst : cpu.pc + .ofNat 1 = cpu.pc + 1 := rfl
  have hSecond : cpu.pc + .ofNat 2 = cpu.pc + 1 + 1 := (UInt16.add_assoc cpu.pc 1 1).symm
  obtain ⟨mnemonic, documented, mode, cycles, pagePenalty⟩ := instruction
  cases mode with
  | implied | accumulator | immediate | relative => rfl
  | zeroPage | zeroPageX | zeroPageY =>
      simp (disch := decide) only [operandText, shownOperand, beforeAddress, shownAddress,
        operandAddress, Instruction.showsByte, AddressingMode.inPageZero, if_true,
        lowByte_toUInt16, getD_bytesAt]
      rfl
  | absolute =>
      by_cases hJump : mnemonic = .jmp ∨ mnemonic = .jsr
      · simp only [operandText, shownOperand, Instruction.showsByte, if_pos hJump,
          decide_eq_true hJump]
        rfl
      · simp only [operandText, shownOperand, Instruction.showsByte, if_neg hJump,
          decide_eq_false hJump]
        rfl
  | indirect =>
      simp (disch := decide) only [operandText, shownOperand, beforeAddress, shownAddress,
        operandAddress, Instruction.showsByte, AddressingMode.inPageZero, getD_bytesAt, hFirst,
        hSecond, wordAt, Bool.false_eq_true, if_false, List.append_nil]
  | absoluteX | absoluteY | indirectX | indirectY =>
      simp (disch := decide) only [operandText, shownOperand, beforeAddress, shownAddress,
        operandAddress, Instruction.showsByte, AddressingMode.inPageZero, getD_bytesAt, hFirst,
        hSecond, wordAt, Bool.false_eq_true, if_false, if_true, valueAt, UInt16.add_sub_cancel]

/-- Every operand fits in its columns. -/
theorem length_shownOperand_le (instruction : Instruction) (registers : Registers)
    (bytes : List UInt8) (address : UInt16) (byte : UInt8) :
    (shownOperand instruction registers bytes address byte).length ≤ 26 := by
  have hAddress : (shownAddress instruction.mode address).length ≤ 4 := by
    rw [shownAddress]
    split <;> simp
  have hByte :
      (if instruction.showsByte then " = ".toList ++ Hex.byte byte else []).length ≤ 5 := by
    split <;> simp
  have hBefore : (beforeAddress instruction.mode registers bytes address).length ≤ 17 := by
    cases instruction.mode <;> simp [beforeAddress, zeroPageText, addressText]
  simp only [shownOperand]
  split
  · exact Nat.zero_le 26
  · exact Nat.le_add_left 1 25
  · simp
  · simp only [List.length_append]
    omega

theorem length_name_le (instruction : Instruction) : instruction.name.toList.length ≤ 4 := by
  have hText : instruction.mnemonic.text.toList.length = 3 := by
    cases instruction.mnemonic <;> rfl
  rw [Instruction.name]
  split
  · rw [hText]
    decide
  · rw [String.toList_append, List.length_append, hText]
    decide

/-- Each byte takes two digits, and there is a blank between two bytes. -/
theorem length_intercalate_byte (bytes : List UInt8) :
    ([' '].intercalate (bytes.map Hex.byte)).length = 3 * bytes.length - 1 := by
  induction bytes with
  | nil => rfl
  | cons byte bytes ih =>
      cases bytes with
      | nil => exact Hex.length_byte byte
      | cons next bytes =>
          rw [List.map_cons, List.map_cons, List.intercalate_cons_cons, ← List.map_cons,
            List.length_append, List.length_append, ih, Hex.length_byte]
          simp only [List.length_cons, List.length_nil]
          omega

theorem length_bytesAt_le (mode : AddressingMode) (pc : UInt16) (peek : UInt16 → UInt8) :
    (bytesAt mode pc peek).length ≤ 3 := by
  rw [bytesAt, ownAddresses, List.length_map, List.length_map, List.length_range]
  cases mode <;> decide

/-- What stands in front of the registers fits in its columns. -/
theorem length_instructionColumns_le (instruction : Instruction) (cpu : Cpu) {bytes : List UInt8}
    (hBytes : bytes.length ≤ 3) (address : UInt16) (byte : UInt8) :
    (instructionColumns instruction cpu.pc bytes
      (shownOperand instruction cpu.toRegisters bytes address byte)).length ≤ 47 := by
  have hOperand := length_shownOperand_le instruction cpu.toRegisters bytes address byte
  have hName := length_name_le instruction
  have hGap : "  ".toList.length = 2 := rfl
  simp only [instructionColumns, List.length_append, List.length_rightpad, List.length_leftpad,
    length_intercalate_byte, Hex.length_word, hGap, List.length_singleton]
  omega

/-- A line has its columns at fixed places, whatever it shows. -/
theorem toList_line (cpu : Cpu) (peek : UInt16 → UInt8) :
    let instruction := decode (peek cpu.pc)
    let bytes := bytesAt instruction.mode cpu.pc peek
    let address := operandAddress instruction.mode cpu peek
    (line cpu peek).toList = columns instruction cpu bytes
      (shownOperand instruction cpu.toRegisters bytes address (peek address)) := by
  intro instruction bytes address
  have hBytes : bytesText instruction cpu peek = [' '].intercalate (bytes.map Hex.byte) := by
    simp only [bytesText, bytes, bytesAt, ownAddresses, List.map_map, Function.comp_def]
  have hText : instructionText cpu peek = instructionColumns instruction cpu.pc bytes
      (shownOperand instruction cpu.toRegisters bytes address (peek address)) := by
    rw [← operandText_eq instruction cpu peek, instructionColumns, ← hBytes]
    rfl
  have hLength := length_instructionColumns_le instruction cpu
    (length_bytesAt_le instruction.mode cpu.pc peek) address (peek address)
  rw [line, String.toList_ofList, hText, rightpad_trimEnd hLength, columns]

end Disassembly

end Nes.Cpu

namespace Nes.Machine

open Cpu Cpu.Disassembly

variable {β : Type} [Board β]

/-- Two digits are enough for an operand in page zero. -/
theorem address_fetchOperand_lt (machine : Machine β) {mode : AddressingMode}
    (hMode : mode.inPageZero = true) : (machine.fetchOperand mode).1.address < 0x100 := by
  have hByte (byte : UInt8) : byte.toUInt16 < 0x100 := by
    rw [UInt16.lt_iff_toNat_lt, UInt8.toNat_toUInt16]
    exact byte.toNat_lt
  cases mode with
  | zeroPage | zeroPageX | zeroPageY => exact hByte _
  | _ => cases hMode

/-- A line shows what the processor fetches: the bytes that it reads from the program counter on,
and the address of the operand. The byte at that address is the one that a read gives, before and
behind the fetch, if memory answers there. -/
theorem toList_line_fetched (machine : Machine β)
    (hShows : machine.Shows (decode (machine.bus.peek machine.cpu.pc)).mode) :
    let instruction := decode (machine.read machine.cpu.pc).1
    let bytes := machine.bus.transfers (machine.ownTraffic instruction.mode)
    let fetched := machine.behindOpcode.fetchOperand instruction.mode
    ∃ byte,
      (line machine.cpu machine.bus.peek).toList = columns instruction machine.cpu bytes
        (shownOperand instruction machine.cpu.toRegisters bytes fetched.1.address byte) ∧
      (instruction.mode.inPageZero = true → fetched.1.address < 0x100) ∧
      (machine.bus.Driven fetched.1.address →
        byte = (machine.read fetched.1.address).1 ∧
          byte = (fetched.2.read fetched.1.address).1) := by
  have hOpcode : (machine.read machine.cpu.pc).1 = machine.bus.peek machine.cpu.pc :=
    fst_read ⟨rfl, rfl⟩ hShows.pc
  rw [hOpcode]
  intro instruction bytes fetched
  have hBytes : bytes = bytesAt instruction.mode machine.cpu.pc machine.bus.peek :=
    transfers_ownTraffic hShows
  have hAddress : fetched.1.address =
      operandAddress instruction.mode machine.cpu machine.bus.peek := address_fetchOperand hShows
  refine ⟨machine.bus.peek fetched.1.address, ?_, address_fetchOperand_lt _,
    fun hDriven => ⟨?_, ?_⟩⟩
  · rw [hBytes, hAddress]
    exact toList_line machine.cpu machine.bus.peek
  · exact (fst_read ⟨rfl, rfl⟩ hDriven).symm
  · exact (fst_read (machine.sameMemory_fetchOperand instruction.mode) hDriven).symm

end Nes.Machine
