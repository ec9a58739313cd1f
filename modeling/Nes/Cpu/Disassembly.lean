import Nes.Cpu.InstructionSet
import Nes.Text.Hex

/-! Lines that show the next instruction and the registers, in fixed columns:

    C000  4C F5 C5  JMP $C5F5                       A:00 X:00 Y:00 P:24 SP:FD

Memory is only looked at, so that showing a line never changes what a program does. -/

namespace Nes.Cpu.Disassembly

def wordAt (peek : UInt16 → UInt8) (address : UInt16) : UInt16 :=
  wordOf (peek address) (peek (address + 1))

/-- The word at an address whose two bytes are on one page. -/
def wordInPageAt (peek : UInt16 → UInt8) (address : UInt16) : UInt16 :=
  wordOf (peek address) (peek (nextInPage address))

/-- What stands after an address to show the byte that is there. -/
def valueAt (peek : UInt16 → UInt8) (address : UInt16) : List Char :=
  " = ".toList ++ Hex.byte (peek address)

def zeroPageText (address : UInt8) : List Char :=
  '$' :: Hex.byte address

def addressText (address : UInt16) : List Char :=
  '$' :: Hex.word address

/-- The operand of an instruction, with the address that results from it and the byte there. -/
def operandText (instruction : Instruction) (cpu : Cpu) (peek : UInt16 → UInt8) : List Char :=
  let low := peek (cpu.pc + 1)
  let word := wordAt peek (cpu.pc + 1)
  match instruction.mode with
  | .implied => []
  | .accumulator => ['A']
  | .immediate => '#' :: '$' :: Hex.byte low
  | .zeroPage => zeroPageText low ++ valueAt peek low.toUInt16
  | .zeroPageX =>
    let address := low + cpu.x
    zeroPageText low ++ ",X @ ".toList ++ Hex.byte address ++ valueAt peek address.toUInt16
  | .zeroPageY =>
    let address := low + cpu.y
    zeroPageText low ++ ",Y @ ".toList ++ Hex.byte address ++ valueAt peek address.toUInt16
  | .absolute =>
    if instruction.mnemonic = .jmp ∨ instruction.mnemonic = .jsr then addressText word
    else addressText word ++ valueAt peek word
  | .absoluteX =>
    let address := word + cpu.x.toUInt16
    addressText word ++ ",X @ ".toList ++ Hex.word address ++ valueAt peek address
  | .absoluteY =>
    let address := word + cpu.y.toUInt16
    addressText word ++ ",Y @ ".toList ++ Hex.word address ++ valueAt peek address
  | .indirect =>
    "(".toList ++ addressText word ++ ") = ".toList ++ Hex.word (wordInPageAt peek word)
  | .indirectX =>
    let pointer := low + cpu.x
    let address := wordInPageAt peek pointer.toUInt16
    "(".toList ++ zeroPageText low ++ ",X) @ ".toList ++ Hex.byte pointer ++ " = ".toList ++
      Hex.word address ++ valueAt peek address
  | .indirectY =>
    let base := wordInPageAt peek low.toUInt16
    let address := base + cpu.y.toUInt16
    "(".toList ++ zeroPageText low ++ "),Y = ".toList ++ Hex.word base ++ " @ ".toList ++
      Hex.word address ++ valueAt peek address
  | .relative => addressText (cpu.pc + 2 + signedOffset low)

def bytesText (instruction : Instruction) (cpu : Cpu) (peek : UInt16 → UInt8) : List Char :=
  let bytes := (List.range (1 + instruction.mode.operandSize)).map fun offset =>
    Hex.byte (peek (cpu.pc + UInt16.ofNat offset))
  [' '].intercalate bytes

def trimEnd (text : List Char) : List Char :=
  (text.reverse.dropWhile (· == ' ')).reverse

/-- The address, the bytes, the name and the operand of the next instruction. -/
def instructionText (cpu : Cpu) (peek : UInt16 → UInt8) : List Char :=
  let instruction := decode (peek cpu.pc)
  Hex.word cpu.pc ++ "  ".toList ++ (bytesText instruction cpu peek).rightpad 8 ' ' ++ [' '] ++
    instruction.name.toList.leftpad 4 ' ' ++ [' '] ++ operandText instruction cpu peek

def registersText (cpu : Cpu) : List Char :=
  " A:".toList ++ Hex.byte cpu.a ++ " X:".toList ++ Hex.byte cpu.x ++ " Y:".toList ++
    Hex.byte cpu.y ++ " P:".toList ++ Hex.byte cpu.flags.toByte ++ " SP:".toList ++
    Hex.byte cpu.s

def line (cpu : Cpu) (peek : UInt16 → UInt8) : String :=
  String.ofList ((trimEnd (instructionText cpu peek)).rightpad 47 ' ' ++ registersText cpu)

end Nes.Cpu.Disassembly
