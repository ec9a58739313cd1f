import Nes.Cartridge.Board

/-! The simplest board: fixed program and pattern memory, no bank switching and no interrupts. -/

namespace Nes

/-- A board that presents its chips directly. Program memory repeats over `$8000` to `$ffff`, so a
single bank of 16 KB appears twice. Work memory repeats over `$6000` to `$7fff`. -/
structure Nrom where
  memory : CartridgeMemory

namespace Nrom

def mapper : UInt16 := 0

/-- The byte at an offset of a chip that repeats over a larger range. A missing chip reads as
zero. -/
def repeated (chip : Array UInt8) (offset : Nat) : UInt8 :=
  chip.getD (offset % chip.size) 0

/-- What the processor reads: program memory, work memory if there is any, or nothing below. -/
def readPrg (board : Nrom) (address : UInt16) : Option UInt8 :=
  if 0x8000 ≤ address then
    some (repeated board.memory.prgRom (address.toNat - 0x8000))
  else if 0x6000 ≤ address ∧ board.memory.prgRam.size ≠ 0 then
    some (repeated board.memory.prgRam (address.toNat - 0x6000))
  else
    none

/-- Only work memory takes writes. There are no registers, so all others are ignored. -/
def writePrg (board : Nrom) (address : UInt16) (value : UInt8) : Nrom :=
  if 0x6000 ≤ address ∧ address < 0x8000 then
    let index := (address.toNat - 0x6000) % board.memory.prgRam.size
    { board with memory.prgRam := board.memory.prgRam.setIfInBounds index value }
  else
    board

/-- What the picture unit reads from the pattern tables. -/
def readChr (board : Nrom) (address : UInt16) : UInt8 :=
  repeated board.memory.chr (address.toNat % 0x2000)

/-- Pattern data takes writes only if it is held in writable memory. -/
def writeChr (board : Nrom) (address : UInt16) (value : UInt8) : Nrom :=
  if board.memory.chrIsRam then
    let index := address.toNat % 0x2000 % board.memory.chr.size
    { board with memory.chr := board.memory.chr.setIfInBounds index value }
  else
    board

instance : Board Nrom where
  readPrg := readPrg
  writePrg := writePrg
  readChr := readChr
  writeChr := writeChr
  mirroring board := board.memory.mirroring
  irq _ := false

end Nrom

end Nes
