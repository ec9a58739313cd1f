import Nes.Cartridge.Mirroring

/-! What a console sees of the circuit board in a cartridge. A board answers on two buses: the
processor addresses `$4020` to `$ffff` and the picture unit addresses `$0000` to `$1fff`. -/

namespace Nes

/-- The behaviour of a cartridge board with states in `β`. -/
class Board (β : Type) where
  /-- The byte that the board drives on the processor bus, or nothing where it is not connected. -/
  readPrg : β → UInt16 → Option UInt8
  /-- A write from the processor bus. -/
  writePrg : β → UInt16 → UInt8 → β
  /-- The byte at an address of the pattern tables. -/
  readChr : β → UInt16 → UInt8
  /-- A write to the pattern tables. -/
  writeChr : β → UInt16 → UInt8 → β
  /-- How the nametables are wired at the moment. -/
  mirroring : β → Mirroring
  /-- Whether the board asserts the interrupt request line. -/
  irq : β → Bool

/-- The memory chips of a cartridge, before a board decides where to present them. -/
structure CartridgeMemory where
  prgRom : Array UInt8
  prgRam : Array UInt8
  /-- Pattern data: read only memory, or memory that the picture unit can write. -/
  chr : Array UInt8
  chrIsRam : Bool
  mirroring : Mirroring

end Nes
