import Nes.Bus.Controllers
import Nes.Ppu.Access
import Nes.Ppu.Tick
import Nes.Ppu.VideoMemory

/-! The address space of the processor.

    $0000 - $1fff  work memory of 2 KB, repeated
    $2000 - $3fff  registers of the picture unit, repeated
    $4000 - $401f  sprite transfer, controllers and sound
    $4020 - $ffff  cartridge

Sound is not produced, so its registers take writes without an effect and drive nothing on reads. -/

namespace Nes

/-- Everything that the processor reaches over its bus. -/
structure Bus (β : Type) where
  ram : Vector UInt8 2048 := Vector.replicate 2048 0
  ppu : Ppu := {}
  video : VideoMemory β
  controllers : Controllers := {}
  /-- The last byte on the data bus. A read that nothing answers gives this byte again. -/
  latch : UInt8 := 0
  /-- The page of a sprite transfer that was requested and has not run yet. -/
  dmaPage : Option UInt8 := none

namespace Bus

variable {β : Type} [Board β]

/-- The cell of work memory behind an address. -/
def ramIndex (address : UInt16) : Fin 2048 :=
  ⟨address.toNat % 2048, by omega⟩

/-- Where a program requests a sprite transfer. -/
def dmaAddress : UInt16 := 0x4014

/-- Where a program drives the strobe and reads the first controller. -/
def firstPadAddress : UInt16 := 0x4016

/-- Where a program reads the second controller. -/
def secondPadAddress : UInt16 := 0x4017

/-- The byte that a read would give if registers gave nothing, without any effect. -/
def peek (bus : Bus β) (address : UInt16) : UInt8 :=
  if address < 0x2000 then bus.ram[ramIndex address]
  else if address < 0x4020 then bus.latch
  else (Board.readPrg bus.video.cartridge.board address).getD bus.latch

/-- Puts the byte at an address on the data bus, with all effects of a read. Controllers drive only
the lower five bits. -/
def drive (bus : Bus β) (address : UInt16) : Bus β :=
  if address < 0x2000 then
    { bus with latch := bus.ram[ramIndex address] }
  else if address < 0x4000 then
    let ppu := bus.ppu.read bus.video.read (Ppu.Register.ofAddress address)
    { bus with ppu, latch := ppu.latch }
  else if address = firstPadAddress ∨ address = secondPadAddress then
    let (bit, controllers) := bus.controllers.read (Socket.ofAddress address)
    { bus with controllers, latch := (bus.latch &&& 0xe0) ||| bit }
  else if address < 0x4020 then
    bus
  else
    match Board.readPrg bus.video.cartridge.board address with
    | some value => { bus with latch := value }
    | none => bus

def read (bus : Bus β) (address : UInt16) : UInt8 × Bus β :=
  let bus := bus.drive address
  (bus.latch, bus)

/-- Stores a byte in the memory of the picture unit, if there is an address for it. -/
def storeVideo (video : VideoMemory β) (address? : Option UInt16) (value : UInt8) : VideoMemory β :=
  match address? with
  | some address => video.write address value
  | none => video

def write (bus : Bus β) (address : UInt16) (value : UInt8) : Bus β :=
  if address < 0x2000 then
    { bus with latch := value, ram := bus.ram.set (ramIndex address) value }
  else if address < 0x4000 then
    let register := Ppu.Register.ofAddress address
    let store := bus.ppu.storeAddress? register
    { bus with
      latch := value
      ppu := bus.ppu.write register value
      video := storeVideo bus.video store value }
  else if address = dmaAddress then
    { bus with latch := value, dmaPage := some value }
  else if address = firstPadAddress then
    { bus with latch := value, controllers := bus.controllers.write value }
  else if address < 0x4020 then
    { bus with latch := value }
  else
    { bus with
      latch := value
      video.cartridge.board := Board.writePrg bus.video.cartridge.board address value }

/-- Takes a requested sprite transfer, so that it runs once. -/
def takeDma (bus : Bus β) : Option UInt8 × Bus β :=
  (bus.dmaPage, { bus with dmaPage := none })

def runPpu (bus : Bus β) (dots : Nat) : Bus β :=
  { bus with ppu := bus.ppu.run bus.video.read dots }

theorem ram_drive (bus : Bus β) (address : UInt16) : (bus.drive address).ram = bus.ram := by
  simp only [drive]
  repeat' split
  all_goals rfl

theorem video_drive (bus : Bus β) (address : UInt16) : (bus.drive address).video = bus.video := by
  simp only [drive]
  repeat' split
  all_goals rfl

theorem dmaPage_drive (bus : Bus β) (address : UInt16) :
    (bus.drive address).dmaPage = bus.dmaPage := by
  simp only [drive]
  repeat' split
  all_goals rfl

end Bus

end Nes
