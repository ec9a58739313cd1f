import Nes.Ppu.Basic

/-! Access to the picture unit from the processor, through eight registers. -/

namespace Nes.Ppu

/-- The registers in the order of their addresses. -/
inductive Register where
  | control
  | mask
  | status
  | oamAddress
  | oamData
  | scroll
  | address
  | data
  deriving DecidableEq, Repr

/-- The register at an address. The registers repeat every eight bytes. -/
def Register.ofAddress (address : UInt16) : Register :=
  match address.toNat % 8 with
  | 0 => .control
  | 1 => .mask
  | 2 => .status
  | 3 => .oamAddress
  | 4 => .oamData
  | 5 => .scroll
  | 6 => .address
  | _ => .data

def paletteStart : UInt16 := 0x3f00

/-- A read leaves the byte that the processor sees in the latch. Registers that can only be written
give what was in the latch before. The data register gives the byte that it fetched at the access
before, except in the palette, where it gives a colour at once and fetches the byte behind it. -/
def read (ppu : Ppu) (memory : UInt16 → UInt8) (register : Register) : Ppu :=
  match register with
  | .status =>
    { ppu with
      latch := ppu.status.toByte ||| (ppu.latch &&& 0x1f)
      scroll := ppu.scroll.resetToggle
      status.verticalBlank := false }
  | .oamData => { ppu with latch := ppu.oam.readByte ppu.oamAddress }
  | .data =>
    let address := ppu.scroll.current.busAddress
    let scroll := ppu.scroll.increment ppu.control.increment
    if address < paletteStart then
      { ppu with latch := ppu.readBuffer, readBuffer := memory address, scroll }
    else
      { ppu with
        latch := (ppu.latch &&& 0xc0) ||| ppu.palette.read ppu.mask address
        readBuffer := memory (address - 0x1000)
        scroll }
  | .control | .mask | .oamAddress | .scroll | .address => ppu

/-- The address outside the unit at which a write to a register stores its byte, if it does. -/
def storeAddress? (ppu : Ppu) (register : Register) : Option UInt16 :=
  let address := ppu.scroll.current.busAddress
  if register = .data ∧ address < paletteStart then some address else none

/-- A write leaves its byte in the latch and changes the state behind the register. Stores to the
memory outside the unit are described by `storeAddress?`. -/
def write (ppu : Ppu) (register : Register) (value : UInt8) : Ppu :=
  match register with
  | .control =>
    let control : Control := ⟨value⟩
    { ppu with
      latch := value
      control
      scroll := ppu.scroll.writeControl value
      nmi := ppu.nmi.signal (control.nmiEnabled && ppu.status.verticalBlank) }
  | .mask => { ppu with latch := value, mask := ⟨value⟩ }
  | .status => { ppu with latch := value }
  | .oamAddress => { ppu with latch := value, oamAddress := value }
  | .oamData =>
    { ppu with
      latch := value
      oam := ppu.oam.setByte ppu.oamAddress value
      oamAddress := ppu.oamAddress + 1 }
  | .scroll => { ppu with latch := value, scroll := ppu.scroll.writeScroll value }
  | .address => { ppu with latch := value, scroll := ppu.scroll.writeAddress value }
  | .data =>
    let address := ppu.scroll.current.busAddress
    { ppu with
      latch := value
      palette := if address < paletteStart then ppu.palette else ppu.palette.write address value
      scroll := ppu.scroll.increment ppu.control.increment }

end Nes.Ppu
