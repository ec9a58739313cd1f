import Nes.Bus.Basic

/-! The transfer of a page of processor memory to sprite memory, while the processor waits. -/

namespace Nes.Bus

variable {β : Type} [Board β]

/-- The register through which a transfer writes to sprite memory. -/
def oamDataAddress : UInt16 := 0x2004

/-- Copies bytes from consecutive addresses to sprite memory, starting where the sprite address
stands. -/
def copyToOam (bus : Bus β) (source : UInt16) : (count : Nat) → Bus β
  | 0 => bus
  | count + 1 =>
    let (value, bus) := bus.read source
    (bus.write oamDataAddress value).copyToOam (source + 1) count

/-- The cycles for which a transfer stops the processor: one to begin, one more to wait for an even
cycle, and two for each byte. -/
def dmaCycles (evenCycle : Bool) : UInt64 :=
  if evenCycle then 513 else 514

/-- Transfers a page, and gives the cycles that it took. -/
def runDma (bus : Bus β) (page : UInt8) (evenCycle : Bool) : UInt64 × Bus β :=
  (dmaCycles evenCycle, bus.copyToOam (page.toUInt16 <<< 8) 256)

end Nes.Bus
