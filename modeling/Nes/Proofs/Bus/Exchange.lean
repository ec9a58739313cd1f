import Nes.Proofs.Bus.Traffic
import Nes.Proofs.Cartridge.Exchange

/-! The processor bus behind an exchange of the cartridge. Every access finds the same bytes and
leaves the buses as they were to each other. -/

namespace Nes.Exchange

open Bus

variable {β γ : Type} [Board β] [Board γ] (exchange : Exchange β γ)

def bus (old : Bus β) : Bus γ where
  ram := old.ram
  ppu := old.ppu
  video := exchange.video old.video
  controllers := old.controllers
  latch := old.latch
  dmaPage := old.dmaPage

/-- No peek tells one bus from the other. -/
theorem peek_bus (old : Bus β) (address : UInt16) :
    (exchange.bus old).peek address = old.peek address := by
  simp only [peek, bus, video, cartridge, exchange.readPrg]

theorem drive_bus (old : Bus β) (address : UInt16) :
    (exchange.bus old).drive address = exchange.bus (old.drive address) := by
  have hVideo : (exchange.bus old).video.read = old.video.read := exchange.read_video old.video
  have hBoard : Board.readPrg (exchange.bus old).video.cartridge.board address =
      Board.readPrg old.video.cartridge.board address := exchange.readPrg _ _
  simp only [drive, hVideo, hBoard]
  split
  · rfl
  split
  · rfl
  split
  · rfl
  split
  · rfl
  split <;> rfl

/-- A read gives the same byte on both buses and leaves them an exchange apart. -/
theorem read_bus (old : Bus β) (address : UInt16) :
    (exchange.bus old).read address =
      ((old.read address).1, exchange.bus (old.read address).2) := by
  rw [Bus.read, drive_bus]
  rfl

theorem storeVideo_video (memory : VideoMemory β) (address? : Option UInt16) (value : UInt8) :
    storeVideo (exchange.video memory) address? value =
      exchange.video (storeVideo memory address? value) := by
  cases address? with
  | none => rfl
  | some address => exact exchange.write_video memory address value

theorem write_bus (old : Bus β) (address : UInt16) (value : UInt8) :
    (exchange.bus old).write address value = exchange.bus (old.write address value) := by
  have hStore := exchange.storeVideo_video old.video
    (old.ppu.storeAddress? (Ppu.Register.ofAddress address)) value
  have hBoard := exchange.writePrg old.video.cartridge.board address value
  simp only [write]
  split
  · rfl
  split
  · simp only [bus, hStore]
  split
  · rfl
  split
  · rfl
  split
  · rfl
  · simp only [bus, video, cartridge, hBoard]

/-- An access commutes with the exchange. -/
theorem access_bus (old : Bus β) (access : Access) :
    (exchange.bus old).access access = exchange.bus (old.access access) := by
  cases access with
  | read address => exact congrArg Prod.snd (exchange.read_bus old address)
  | write address value => exact exchange.write_bus old address value

theorem copyToOam_bus (old : Bus β) (source : UInt16) (count : Nat) :
    (exchange.bus old).copyToOam source count = exchange.bus (old.copyToOam source count) := by
  induction count generalizing old source with
  | zero => rfl
  | succ count ih =>
      rw [copyToOam, read_bus]
      simp only [write_bus]
      exact ih _ _

theorem runPpu_bus (old : Bus β) (dots : Nat) :
    (exchange.bus old).runPpu dots = exchange.bus (old.runPpu dots) := by
  have hVideo : (exchange.bus old).video.read = old.video.read := exchange.read_video old.video
  rw [runPpu, hVideo]
  rfl

end Nes.Exchange
