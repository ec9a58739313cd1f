import Nes.Bus.Basic
import Nes.Cpu.AddressingMode
import Nes.Cpu.Basic

/-! The processor on its bus: reading, writing and the stack. -/

namespace Nes

open Cpu

/-- The processor together with everything that it reaches. -/
structure Machine (β : Type) where
  cpu : Cpu := .powerOn
  bus : Bus β

namespace Machine

variable {β : Type} [Board β]

def read (machine : Machine β) (address : UInt16) : UInt8 × Machine β :=
  let (value, bus) := machine.bus.read address
  (value, { machine with bus })

def write (machine : Machine β) (address : UInt16) (value : UInt8) : Machine β :=
  { machine with bus := machine.bus.write address value }

/-- Reads the word at an address, low byte first. -/
def readWord (machine : Machine β) (address : UInt16) : UInt16 × Machine β :=
  let (low, machine) := machine.read address
  let (high, machine) := machine.read (address + 1)
  (wordOf low high, machine)

/-- Reads the word at an address whose two bytes are on one page. -/
def readWordInPage (machine : Machine β) (address : UInt16) : UInt16 × Machine β :=
  let (low, machine) := machine.read address
  let (high, machine) := machine.read (nextInPage address)
  (wordOf low high, machine)

/-- Reads the byte at the program counter and moves on. -/
def fetchByte (machine : Machine β) : UInt8 × Machine β :=
  let (value, machine) := machine.read machine.cpu.pc
  (value, { machine with cpu.pc := machine.cpu.pc + 1 })

def fetchWord (machine : Machine β) : UInt16 × Machine β :=
  let (word, machine) := machine.readWord machine.cpu.pc
  (word, { machine with cpu.pc := machine.cpu.pc + 2 })

def push (machine : Machine β) (value : UInt8) : Machine β :=
  let machine := machine.write (stackAddress machine.cpu.s) value
  { machine with cpu.s := machine.cpu.s - 1 }

def pull (machine : Machine β) : UInt8 × Machine β :=
  let s := machine.cpu.s + 1
  let (value, machine) := machine.read (stackAddress s)
  (value, { machine with cpu.s := s })

/-- Puts a word on the stack, high byte first. -/
def pushWord (machine : Machine β) (word : UInt16) : Machine β :=
  (machine.push (highByte word)).push (lowByte word)

def pullWord (machine : Machine β) : UInt16 × Machine β :=
  let (low, machine) := machine.pull
  let (high, machine) := machine.pull
  (wordOf low high, machine)

/-- Makes the flags and registers those of a result. -/
def withRegisters (machine : Machine β) (registers : Registers) : Machine β :=
  { machine with cpu.toRegisters := registers }

def goto (machine : Machine β) (address : UInt16) : Machine β :=
  { machine with cpu.pc := address }

/-- Lets time pass on the processor's count. -/
def spend (machine : Machine β) (cycles : UInt64) : Machine β :=
  { machine with cpu.cycles := machine.cpu.cycles + cycles }

end Machine

end Nes
