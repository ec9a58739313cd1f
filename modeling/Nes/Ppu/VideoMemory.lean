import Nes.Cartridge.Basic

/-! The address space of the picture unit without its palette: pattern tables on the cartridge below
`$2000`, and nametables above. -/

namespace Nes

/-- The cell of nametable memory behind an address from `$2000` upwards. -/
def nametableOffset (mirroring : Mirroring) (address : UInt16) : Fin 4096 :=
  let logical : Fin 4 := ⟨address.toNat / 0x400 % 4, by omega⟩
  ⟨0x400 * (mirroring.table logical).val + address.toNat % 0x400, by omega⟩

/-- Nametable memory and the cartridge, as the picture unit reaches them. The console has the lower
half of nametable memory, the upper half is on four screen cartridges. -/
structure VideoMemory (β : Type) where
  nametables : Vector UInt8 4096 := Vector.replicate 4096 0
  cartridge : Cartridge β

namespace VideoMemory

variable {β : Type} [Board β]

/-- Addresses have fourteen bits. -/
def addressOf (address : UInt16) : UInt16 :=
  UInt16.ofNat (address.toNat % 0x4000)

def read (memory : VideoMemory β) (address : UInt16) : UInt8 :=
  let address := addressOf address
  if address < 0x2000 then Board.readChr memory.cartridge.board address
  else memory.nametables[nametableOffset (Board.mirroring memory.cartridge.board) address]

/-- Stores a byte at an address. Whether a store to the pattern tables has an effect depends on the
board. -/
def write (memory : VideoMemory β) (address : UInt16) (value : UInt8) : VideoMemory β :=
  let address := addressOf address
  if address < 0x2000 then
    { memory with cartridge.board := Board.writeChr memory.cartridge.board address value }
  else
    let offset := nametableOffset (Board.mirroring memory.cartridge.board) address
    { memory with nametables := memory.nametables.set offset value }

end VideoMemory

end Nes
