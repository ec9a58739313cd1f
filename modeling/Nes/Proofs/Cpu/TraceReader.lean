import Nes.Proofs.Cpu.TraceLine
import Nes.Proofs.Text.Hexadecimal

/-! Reading the line that shows an instruction. Its columns have fixed widths, whatever they show,
so that the registers and the bytes of the instruction can be told from the line alone. -/

namespace Nes.Cpu.Disassembly

/-- The part of a line that starts at a column and has a width. -/
def column (text : List Char) (start width : Nat) : List Char :=
  (text.drop start).take width

/-- What can be told from a line. -/
structure Reading where
  pc : UInt16
  /-- The bytes of the instruction. -/
  bytes : List UInt8
  a : UInt8
  x : UInt8
  y : UInt8
  status : UInt8
  s : UInt8
  deriving DecidableEq, Repr

/-- Reads the bytes of an instruction from their columns. There are up to three of them, and a place
that is blank has no byte. -/
def readBytes (text : List Char) : List UInt8 :=
  [0, 3, 6].filterMap fun start => Hex.byte? (column text start 2)

/-- Reads a line by its columns. -/
def readLine? (line : String) : Option Reading := do
  let text := line.toList
  let pc ← Hex.word? (column text 0 4)
  let a ← Hex.byte? (column text 50 2)
  let x ← Hex.byte? (column text 55 2)
  let y ← Hex.byte? (column text 60 2)
  let status ← Hex.byte? (column text 65 2)
  let s ← Hex.byte? (column text 71 2)
  return { pc, bytes := readBytes (column text 6 8), a, x, y, status, s }

/-- What a line is made for. -/
def reading (cpu : Cpu) (peek : UInt16 → UInt8) : Reading where
  pc := cpu.pc
  bytes := bytesAt (decode (peek cpu.pc)).mode cpu.pc peek
  a := cpu.a
  x := cpu.x
  y := cpu.y
  status := cpu.flags.toByte
  s := cpu.s

/-- The columns of a line, those between two others included: the address, the bytes, the name and
the operand of the instruction, and each register behind its name. -/
def fields (cpu : Cpu) (peek : UInt16 → UInt8) : List (List Char) :=
  let instruction := decode (peek cpu.pc)
  let bytes := bytesAt instruction.mode cpu.pc peek
  [Hex.word cpu.pc, "  ".toList, ([' '].intercalate (bytes.map Hex.byte)).rightpad 8 ' ', [' '],
    instruction.name.toList.leftpad 4 ' ', [' '],
    (operandText instruction cpu peek).rightpad 27 ' ',
    " A:".toList, Hex.byte cpu.a, " X:".toList, Hex.byte cpu.x, " Y:".toList, Hex.byte cpu.y,
    " P:".toList, Hex.byte cpu.flags.toByte, " SP:".toList, Hex.byte cpu.s]

def widths : List Nat :=
  [4, 2, 8, 1, 4, 1, 27, 3, 2, 3, 2, 3, 2, 3, 2, 4, 2]

theorem column_append (front rest : List Char) (start width : Nat) :
    column (front ++ rest) (front.length + start) width = column rest start width := by
  rw [column, List.drop_length_add_append, column]

/-- A column starts behind those in front of it, and is as wide as what it shows. -/
theorem column_flatten (columns : List (List Char)) (index : Nat) :
    column columns.flatten ((columns.map List.length).take index).sum
      ((columns.map List.length).getD index 0) = columns.getD index [] := by
  induction columns generalizing index with
  | nil => simp [column]
  | cons first rest ih =>
      cases index with
      | zero => simp [column]
      | succ index => exact (column_append first rest.flatten _ _).trans (ih index)

theorem rightpad_append (front back : List Char) (width : Nat) :
    (front ++ back).rightpad (front.length + width) ' ' = front ++ back.rightpad width ' ' := by
  rw [List.rightpad, List.rightpad, List.length_append, Nat.add_sub_add_left, List.append_assoc]

/-- Two digits for each byte and a blank between two bytes fit into eight columns. -/
theorem length_bytesColumn {bytes : List UInt8} (hBytes : bytes.length ≤ 3) :
    (([' '].intercalate (bytes.map Hex.byte)).rightpad 8 ' ').length = 8 := by
  rw [List.length_rightpad, length_intercalate_byte]
  omega

theorem length_nameColumn (instruction : Instruction) :
    (instruction.name.toList.leftpad 4 ' ').length = 4 := by
  rw [List.length_leftpad]
  exact Nat.max_eq_left (length_name_le instruction)

def beforeOperand (instruction : Instruction) (pc : UInt16) (bytes : List UInt8) : List Char :=
  Hex.word pc ++ "  ".toList ++ ([' '].intercalate (bytes.map Hex.byte)).rightpad 8 ' ' ++ [' '] ++
    instruction.name.toList.leftpad 4 ' ' ++ [' ']

/-- The operand starts at column 20. -/
theorem length_beforeOperand (instruction : Instruction) (pc : UInt16) {bytes : List UInt8}
    (hBytes : bytes.length ≤ 3) : (beforeOperand instruction pc bytes).length = 20 := by
  simp only [beforeOperand, List.length_append, Hex.length_word, length_nameColumn,
    length_bytesColumn hBytes]
  rfl

/-- There are 27 columns for the operand. -/
theorem columns_eq (instruction : Instruction) (cpu : Cpu) {bytes : List UInt8}
    (hBytes : bytes.length ≤ 3) (operand : List Char) :
    columns instruction cpu bytes operand =
      beforeOperand instruction cpu.pc bytes ++ operand.rightpad 27 ' ' ++ registersText cpu := by
  have hFront : 47 = (beforeOperand instruction cpu.pc bytes).length + 27 := by
    rw [length_beforeOperand instruction cpu.pc hBytes]
  rw [← rightpad_append, ← hFront]
  rfl

theorem registersText_eq (cpu : Cpu) :
    registersText cpu =
      " A:".toList ++ Hex.byte cpu.a ++ " X:".toList ++ Hex.byte cpu.x ++ " Y:".toList ++
        Hex.byte cpu.y ++ " P:".toList ++ Hex.byte cpu.flags.toByte ++ " SP:".toList ++
        Hex.byte cpu.s :=
  rfl

section Fields

variable (cpu : Cpu) (peek : UInt16 → UInt8)

/-- Every operand text fits in its columns. -/
theorem length_operandText_le (instruction : Instruction) :
    (operandText instruction cpu peek).length ≤ 27 := by
  rw [operandText_eq]
  exact Nat.le_succ_of_le (length_shownOperand_le _ _ _ _ _)

theorem length_operandColumn (instruction : Instruction) :
    ((operandText instruction cpu peek).rightpad 27 ' ').length = 27 := by
  rw [List.length_rightpad]
  exact Nat.max_eq_left (length_operandText_le cpu peek instruction)

/-- Every column has its width. -/
theorem map_length_fields : (fields cpu peek).map List.length = widths := by
  simp only [fields, List.map_cons, List.map_nil, Hex.length_word, Hex.length_byte,
    length_bytesColumn (length_bytesAt_le _ _ _), length_nameColumn, length_operandColumn]
  rfl

/-- The operand has its columns to itself, with the registers behind them. -/
theorem toList_line_eq_append :
    (line cpu peek).toList =
      beforeOperand (decode (peek cpu.pc)) cpu.pc
          (bytesAt (decode (peek cpu.pc)).mode cpu.pc peek) ++
        (operandText (decode (peek cpu.pc)) cpu peek).rightpad 27 ' ' ++ registersText cpu := by
  rw [← columns_eq _ _ (length_bytesAt_le _ _ _), operandText_eq]
  exact toList_line cpu peek

/-- The registers are behind column 47. -/
theorem drop_line : (line cpu peek).toList.drop 47 = registersText cpu := by
  rw [toList_line_eq_append]
  refine List.drop_left' ?_
  rw [List.length_append, length_beforeOperand _ _ (length_bytesAt_le _ _ _), length_operandColumn]

/-- A line consists of its columns. -/
theorem toList_line_eq_flatten : (line cpu peek).toList = (fields cpu peek).flatten := by
  rw [toList_line_eq_append]
  simp only [beforeOperand, registersText_eq, fields, List.flatten_cons, List.flatten_nil,
    List.append_nil, List.append_assoc]

/-- Each column of a line is at a fixed place. -/
theorem column_line (index : Nat) :
    column (line cpu peek).toList (widths.take index).sum (widths.getD index 0) =
      (fields cpu peek).getD index [] := by
  rw [toList_line_eq_flatten, ← map_length_fields cpu peek]
  exact column_flatten (fields cpu peek) index

/-- Every line is as long as every other. -/
theorem length_line : (line cpu peek).toList.length = 73 := by
  rw [toList_line_eq_flatten, List.length_flatten, map_length_fields]
  rfl

end Fields

theorem readBytes_eq {text : List Char} (first second third : List Char)
    (hFirst : column text 0 2 = first) (hSecond : column text 3 2 = second)
    (hThird : column text 6 2 = third) :
    readBytes text = [first, second, third].filterMap Hex.byte? := by
  rw [← hFirst, ← hSecond, ← hThird]
  rfl

/-- The bytes of an instruction are read back from their columns. -/
theorem readBytes_bytesColumn {bytes : List UInt8} (hBytes : bytes.length ≤ 3) :
    readBytes (([' '].intercalate (bytes.map Hex.byte)).rightpad 8 ' ') = bytes := by
  let blank := [' ', ' ']
  have hBlank : Hex.byte? blank = none := rfl
  match bytes, hBytes with
  | [], _ => rfl
  | [first], _ =>
      rw [readBytes_eq (Hex.byte first) blank blank rfl rfl rfl]
      simp [Hex.byte?_byte, hBlank]
  | [first, second], _ =>
      rw [readBytes_eq (Hex.byte first) (Hex.byte second) blank rfl rfl rfl]
      simp [Hex.byte?_byte, hBlank]
  | [first, second, third], _ =>
      rw [readBytes_eq (Hex.byte first) (Hex.byte second) (Hex.byte third) rfl rfl rfl]
      simp [Hex.byte?_byte]

/-- A line gives back what it was made for. -/
theorem readLine?_line (cpu : Cpu) (peek : UInt16 → UInt8) :
    readLine? (line cpu peek) = some (reading cpu peek) := by
  have hPc : column (line cpu peek).toList 0 4 = Hex.word cpu.pc := column_line cpu peek 0
  have hBytes := column_line cpu peek 2
  have hA : column (line cpu peek).toList 50 2 = Hex.byte cpu.a := column_line cpu peek 8
  have hX : column (line cpu peek).toList 55 2 = Hex.byte cpu.x := column_line cpu peek 10
  have hY : column (line cpu peek).toList 60 2 = Hex.byte cpu.y := column_line cpu peek 12
  have hStatus : column (line cpu peek).toList 65 2 = Hex.byte cpu.flags.toByte :=
    column_line cpu peek 14
  have hS : column (line cpu peek).toList 71 2 = Hex.byte cpu.s := column_line cpu peek 16
  have hRead : readBytes (column (line cpu peek).toList 6 8) =
      bytesAt (decode (peek cpu.pc)).mode cpu.pc peek :=
    (congrArg readBytes hBytes).trans (readBytes_bytesColumn (length_bytesAt_le _ _ _))
  simp only [readLine?, hPc, hA, hX, hY, hStatus, hS, hRead, Hex.word?_word, Hex.byte?_byte]
  rfl

/-- A column starts with the first part of what it shows. -/
theorem column_of_rightpad {text shown : List Char} {start width : Nat}
    (hColumn : column text start width = shown.rightpad width ' ') (hShown : shown.length ≤ width) :
    column text start shown.length = shown := by
  have hPart : column text start shown.length = (column text start width).take shown.length := by
    rw [column, column, List.take_take, Nat.min_eq_left hShown]
  rw [hPart, hColumn, List.rightpad, List.take_left]

/-- What is set to the right ends where its column ends. -/
theorem column_of_leftpad {text shown : List Char} {start width : Nat}
    (hColumn : column text start width = shown.leftpad width ' ') (hShown : shown.length ≤ width) :
    column text (start + width - shown.length) shown.length = shown := by
  have hPart : column text (start + width - shown.length) shown.length =
      (column text start width).drop (width - shown.length) := by
    rw [column, column, List.drop_take, List.drop_drop, Nat.sub_sub_self hShown,
      Nat.add_sub_assoc hShown]
  rw [hPart, hColumn, List.leftpad]
  exact List.drop_left' List.length_replicate

/-- Nothing on a line ever moves. Whatever the state and the memory, and whatever the opcode, a line
has 73 characters. The address stands in front, the bytes of the instruction start at column 6, the
name ends in column 18, the operand has the columns from 20 on to itself, and the registers start at
column 48. So a reader that knows nothing but the columns finds the address, the bytes, the
registers and the status, and two states with equal lines agree on all of these. -/
theorem line_read_back (cpu : Cpu) (peek : UInt16 → UInt8) :
    let instruction := decode (peek cpu.pc)
    let bytes := (List.range (1 + instruction.mode.operandSize)).map fun offset =>
      peek (cpu.pc + .ofNat offset)
    let name := instruction.name.toList
    let text := (line cpu peek).toList
    text.length = 73 ∧
    column text 0 4 = Hex.word cpu.pc ∧
    column text 6 (3 * bytes.length - 1) = [' '].intercalate (bytes.map Hex.byte) ∧
    column text (19 - name.length) name.length = name ∧
    column text 20 27 = (operandText instruction cpu peek).rightpad 27 ' ' ∧
    text.drop 48 =
      "A:".toList ++ Hex.byte cpu.a ++ " X:".toList ++ Hex.byte cpu.x ++ " Y:".toList ++
        Hex.byte cpu.y ++ " P:".toList ++ Hex.byte cpu.flags.toByte ++ " SP:".toList ++
        Hex.byte cpu.s ∧
    readLine? (line cpu peek) = some ⟨cpu.pc, bytes, cpu.a, cpu.x, cpu.y, cpu.flags.toByte, cpu.s⟩ ∧
    ∀ other otherPeek, line cpu peek = line other otherPeek →
      reading cpu peek = reading other otherPeek := by
  intro instruction bytes name text
  have hSame : bytesAt instruction.mode cpu.pc peek = bytes := by
    simp only [bytesAt, ownAddresses, List.map_map, Function.comp_def, bytes]
  have hRead : readLine? (line cpu peek) = some (reading cpu peek) := readLine?_line cpu peek
  have hBytes : column text 6 8 = ([' '].intercalate (bytes.map Hex.byte)).rightpad 8 ' ' := by
    rw [← hSame]
    exact column_line cpu peek 2
  have hBytesWidth : ([' '].intercalate (bytes.map Hex.byte)).length = 3 * bytes.length - 1 :=
    length_intercalate_byte bytes
  have hCount : bytes.length ≤ 3 := hSame ▸ length_bytesAt_le instruction.mode cpu.pc peek
  refine ⟨length_line cpu peek, column_line cpu peek 0, ?_, ?_, column_line cpu peek 6, ?_, ?_,
    fun other otherPeek hLines => ?_⟩
  · rw [← hBytesWidth]
    exact column_of_rightpad hBytes (by omega)
  · exact column_of_leftpad (column_line cpu peek 4) (length_name_le instruction)
  · rw [← List.drop_drop (i := 1) (j := 47), drop_line, registersText_eq]
    rfl
  · rw [hRead, reading, ← hSame]
  · rw [hLines, readLine?_line] at hRead
    exact (Option.some.inj hRead).symm

/-- An instruction that is not implemented, with an operand beyond the last address. Its line is
that of a state at another time, with the same registers. -/
theorem line_read_back_beyondLast :
    let cpu : Cpu := { pc := 0xfffe, a := 0x12, x := 0x34, y := 0x56, s := 0xfd }
    let later := { cpu with cycles := 7, nmiPending := true }
    let peek : UInt16 → UInt8 := fun address => if address = 0xfffe then 0x9f else address.toUInt8
    let text := (line cpu peek).toList
    text.length = 73 ∧ column text 0 4 = "FFFE".toList ∧ column text 6 8 = "9F FF 00".toList ∧
      column text 15 4 = "*AHX".toList ∧
      column text 20 27 = "$00FF,Y @ 0155 = 55        ".toList ∧
      text.drop 48 = "A:12 X:34 Y:56 P:24 SP:FD".toList ∧
      readLine? (line cpu peek) =
        some ⟨0xfffe, [0x9f, 0xff, 0x00], 0x12, 0x34, 0x56, 0x24, 0xfd⟩ ∧
      reading later peek = reading cpu peek := by
  intro cpu later peek text
  have hBytes : (List.range (1 + (decode (peek cpu.pc)).mode.operandSize)).map
      (fun offset => peek (cpu.pc + .ofNat offset)) = [0x9f, 0xff, 0x00] := by
    simp only [cpu, peek]
    decide
  have hName : (decode (peek cpu.pc)).name.toList = "*AHX".toList := by
    simp only [cpu, peek]
    decide
  have hOperand : (operandText (decode (peek cpu.pc)) cpu peek).rightpad 27 ' ' =
      "$00FF,Y @ 0155 = 55        ".toList := by
    simp only [cpu, peek]
    decide
  have hFlags : cpu.flags.toByte = 0x24 := by
    simp only [cpu]
    decide
  obtain ⟨hLength, hPc, hShown, hEnd, hBetween, hRegisters, hRead, hSame⟩ := line_read_back cpu peek
  rw [hBytes] at hShown hRead
  rw [hName] at hEnd
  rw [hFlags] at hRead hRegisters
  exact ⟨hLength, hPc.trans (by decide), hShown.trans (by decide), hEnd, hBetween.trans hOperand,
    hRegisters.trans (by decide), hRead, (hSame later peek rfl).symm⟩

end Nes.Cpu.Disassembly
