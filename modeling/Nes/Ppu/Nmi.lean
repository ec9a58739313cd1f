import Nes.Ppu.Beam

/-! The interrupt that the picture unit raises at the start of vertical blanking. -/

namespace Nes.Ppu

/-- The state of the interrupt output. -/
structure Nmi where
  /-- Whether the interrupt was already raised in this vertical blanking. -/
  raised : Bool := false
  /-- Whether an interrupt was raised that nobody has noticed yet. -/
  pending : Bool := false
  deriving DecidableEq, Repr

namespace Nmi

/-- Raises the interrupt if the line is active and it was not raised before. -/
def signal (nmi : Nmi) (line : Bool) : Nmi :=
  if line && !nmi.raised then { raised := true, pending := true } else nmi

/-- A new vertical blanking may raise the interrupt again. It does so at once if it is enabled. -/
def tick (nmi : Nmi) (beam : Beam) (enabled : Bool) : Nmi :=
  if beam.At Beam.verticalBlankLine 1 then signal { nmi with raised := false } enabled else nmi

end Nmi

end Nes.Ppu
