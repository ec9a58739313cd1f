import Nes.Cartridge.Board

/-! A board whose interrupt request is held in a latch. It adds to any other board a request that
stays asserted until the program acknowledges it. -/

namespace Nes

/-- A board with an interrupt latch in front of it. -/
structure InterruptLatch (β : Type) where
  board : β
  /-- Whether an interrupt is requested. -/
  requested : Bool := false

namespace InterruptLatch

variable {β : Type} [Board β]

/-- The address that acknowledges an interrupt when the processor writes to it. -/
def acknowledgeAddress : UInt16 := 0x6000

/-- A write reaches the board behind the latch, and one to the acknowledge address also releases the
latch. -/
def writePrg (latch : InterruptLatch β) (address : UInt16) (value : UInt8) : InterruptLatch β :=
  { board := Board.writePrg latch.board address value
    requested := latch.requested && address != acknowledgeAddress }

instance : Board (InterruptLatch β) where
  readPrg latch := Board.readPrg latch.board
  writePrg := writePrg
  readChr latch := Board.readChr latch.board
  writeChr latch address value := { latch with board := Board.writeChr latch.board address value }
  mirroring latch := Board.mirroring latch.board
  irq latch := latch.requested

end InterruptLatch

end Nes
