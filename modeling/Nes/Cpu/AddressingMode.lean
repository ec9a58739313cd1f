/-! The ways in which an instruction names its operand. -/

namespace Nes.Cpu

inductive AddressingMode where
  /-- There is no operand. -/
  | implied
  /-- The operand is the accumulator. -/
  | accumulator
  /-- The operand is the byte after the opcode. -/
  | immediate
  | zeroPage
  | zeroPageX
  | zeroPageY
  | absolute
  | absoluteX
  | absoluteY
  /-- The operand address is in memory. -/
  | indirect
  /-- The operand address is in page zero, at an indexed place. -/
  | indirectX
  /-- An address in page zero is indexed to give the operand address. -/
  | indirectY
  /-- The operand is a distance from the next instruction. -/
  | relative
  deriving DecidableEq, Repr

namespace AddressingMode

/-- The number of bytes after the opcode. -/
def operandSize : AddressingMode → Nat
  | implied | accumulator => 0
  | absolute | absoluteX | absoluteY | indirect => 2
  | immediate | zeroPage | zeroPageX | zeroPageY | indirectX | indirectY | relative => 1

end AddressingMode

/-- The page of an address, which is its upper byte. -/
def pageOf (address : UInt16) : Nat :=
  address.toNat / 0x100

def samePage (a b : UInt16) : Bool :=
  pageOf a == pageOf b

/-- The address after another one, without a carry into the upper byte: behind the end of a page
follows its start. -/
def nextInPage (address : UInt16) : UInt16 :=
  UInt16.ofNat (0x100 * pageOf address + (address.toNat + 1) % 0x100)

def wordOf (low high : UInt8) : UInt16 :=
  UInt16.ofNat (0x100 * high.toNat + low.toNat)

def highByte (word : UInt16) : UInt8 :=
  UInt8.ofNat (word.toNat / 0x100)

def lowByte (word : UInt16) : UInt8 :=
  UInt8.ofNat (word.toNat % 0x100)

/-- The distance that a byte encodes as a signed number, for addition to an address. -/
def signedOffset (byte : UInt8) : UInt16 :=
  if byte < 0x80 then byte.toUInt16 else byte.toUInt16 + 0xff00

end Nes.Cpu
