import Nes.Proofs.Bus.Driven
import Nes.Proofs.Ppu.Cells

/-! The processor bus with cells that may be missing, down to the chips of the cartridge. A read or
a write has no answer if it asks for a cell that does not exist, or for the remainder by the size of
an empty chip. There are all cells that a bus with three chips asks for, and its accesses never
change the chips but for the bytes of writable memory. -/

namespace Nes

/-- A remainder, which there is only by a number other than zero. -/
def modulo? (value divisor : Nat) : Option Nat :=
  if divisor = 0 then none else some (value % divisor)

/-- Division has a remainder for every divisor but zero. -/
theorem modulo?_eq (value : Nat) {divisor : Nat} (hDivisor : 0 < divisor) :
    modulo? value divisor = some (value % divisor) :=
  if_neg (Nat.ne_of_gt hDivisor)

namespace Nrom

def repeated? (chip : Array UInt8) (offset : Nat) : Option UInt8 := do
  let index ← modulo? offset chip.size
  chip[index]?

def storeRepeated? (chip : Array UInt8) (offset : Nat) (value : UInt8) : Option (Array UInt8) := do
  let index ← modulo? offset chip.size
  if index < chip.size then some (chip.setIfInBounds index value) else none

def readPrg? (board : Nrom) (address : UInt16) : Option (Option UInt8) :=
  if 0x8000 ≤ address then do
    return some (← repeated? board.memory.prgRom (address.toNat - 0x8000))
  else if 0x6000 ≤ address ∧ board.memory.prgRam.size ≠ 0 then do
    return some (← repeated? board.memory.prgRam (address.toNat - 0x6000))
  else some none

def writePrg? (board : Nrom) (address : UInt16) (value : UInt8) : Option Nrom :=
  if 0x6000 ≤ address ∧ address < 0x8000 ∧ board.memory.prgRam.size ≠ 0 then do
    let prgRam ← storeRepeated? board.memory.prgRam (address.toNat - 0x6000) value
    return { board with memory.prgRam := prgRam }
  else some board

def readChr? (board : Nrom) (address : UInt16) : Option UInt8 :=
  repeated? board.memory.chr (address.toNat % 0x2000)

def writeChr? (board : Nrom) (address : UInt16) (value : UInt8) : Option Nrom :=
  if board.memory.chrIsRam then do
    let chr ← storeRepeated? board.memory.chr (address.toNat % 0x2000) value
    return { board with memory.chr := chr }
  else some board

structure HasChips (board : Nrom) : Prop where
  prgRom : 0 < board.memory.prgRom.size
  prgRam : 0 < board.memory.prgRam.size
  chr : 0 < board.memory.chr.size

/-- Two boards have the same chips, but for the bytes of writable memory. -/
structure SameChips (board other : Nrom) : Prop extends SameWiring board other where
  prgRom : board.memory.prgRom = other.memory.prgRom
  prgRam : board.memory.prgRam.size = other.memory.prgRam.size
  chrRom : other.memory.chrIsRam = false → board.memory.chr = other.memory.chr

namespace SameChips

variable {board other third : Nrom}

theorem refl (board : Nrom) : SameChips board board :=
  ⟨.refl board, rfl, rfl, fun _ => rfl⟩

theorem trans (hFirst : SameChips board other) (hSecond : SameChips other third) :
    SameChips board third where
  toSameWiring := hFirst.toSameWiring.trans hSecond.toSameWiring
  prgRom := hFirst.prgRom.trans hSecond.prgRom
  prgRam := hFirst.prgRam.trans hSecond.prgRam
  chrRom := fun hRom =>
    (hFirst.chrRom (hSecond.chrIsRam.trans hRom)).trans (hSecond.chrRom hRom)

/-- Boards with the same chips have chips if one of them has. -/
theorem hasChips (hSame : SameChips board other) (hChips : other.HasChips) : board.HasChips where
  prgRom := by
    rw [hSame.prgRom]
    exact hChips.prgRom
  prgRam := by
    rw [hSame.prgRam]
    exact hChips.prgRam
  chr := by
    rw [hSame.size]
    exact hChips.chr

/-- No write of the processor gives a board other chips. -/
theorem writePrg (board : Nrom) (address : UInt16) (value : UInt8) :
    SameChips (Board.writePrg board address value) board where
  toSameWiring := .writePrg board address value
  prgRom := board.prgRom_writePrg address value
  prgRam := by
    rw [prgRam_writePrg]
    split
    · exact Array.size_setIfInBounds
    · rfl
  chrRom := fun _ => by
    obtain ⟨prgRam, hWritten⟩ := board.exists_writePrg address value
    rw [hWritten]

theorem writeChr (board : Nrom) (address : UInt16) (value : UInt8) :
    SameChips (Board.writeChr board address value) board where
  toSameWiring := .writeChr board address value
  prgRom := by
    simp only [Board.writeChr, Nrom.writeChr]
    split <;> rfl
  prgRam := by
    simp only [Board.writeChr, Nrom.writeChr]
    split <;> rfl
  chrRom := fun hRom => by rw [writeChr_rom hRom]

end SameChips

/-- Every offset leads to a byte of a chip that has bytes. -/
theorem repeated?_eq {chip : Array UInt8} (hChip : 0 < chip.size) (offset : Nat) :
    repeated? chip offset = some (repeated chip offset) := by
  rw [repeated?, modulo?_eq offset hChip]
  exact getElem?_repeated chip offset hChip

theorem storeRepeated?_eq {chip : Array UInt8} (hChip : 0 < chip.size) (offset : Nat)
    (value : UInt8) :
    storeRepeated? chip offset value = some (chip.setIfInBounds (offset % chip.size) value) := by
  rw [storeRepeated?, modulo?_eq offset hChip]
  exact if_pos (Nat.mod_lt offset hChip)

namespace HasChips

variable {board : Nrom} (hChips : board.HasChips) (address : UInt16) (value : UInt8)

include hChips

/-- A board with chips answers every read of the processor. -/
theorem readPrg?_eq : board.readPrg? address = some (Board.readPrg board address) := by
  simp only [readPrg?, repeated?_eq hChips.prgRom, repeated?_eq hChips.prgRam, Board.readPrg,
    readPrg]
  split
  · rfl
  · split <;> rfl

theorem writePrg?_eq :
    board.writePrg? address value = some (Board.writePrg board address value) := by
  simp only [writePrg?, storeRepeated?_eq hChips.prgRam, Board.writePrg, writePrg,
    Nat.ne_of_gt hChips.prgRam, ne_eq, not_false_eq_true, and_true]
  split <;> rfl

theorem readChr?_eq : board.readChr? address = some (Board.readChr board address) :=
  repeated?_eq hChips.chr _

theorem writeChr?_eq :
    board.writeChr? address value = some (Board.writeChr board address value) := by
  simp only [writeChr?, storeRepeated?_eq hChips.chr, Board.writeChr, writeChr]
  split <;> rfl

end HasChips

end Nrom

namespace Cartridge

/-- An image that loads has program memory. -/
theorem byteAt_ne_zero {image : Array UInt8} (hAccepted : rejection image = none) :
    byteAt image 4 ≠ 0 := by
  rw [rejection, firstReason_eq_none] at hAccepted
  simpa using hAccepted ⟨byteAt image 4 == 0, .noPrgRom⟩ (by simp [formatChecks])

end Cartridge

namespace CartridgeMemory

variable {header : Header} {image : Array UInt8} (hImage : header.imageSize ≤ image.size)

include hImage

/-- The program chip has the size that the header declares. -/
theorem size_prgRom_ofImage : (ofImage header image).prgRom.size = header.prgRomSize := by
  rw [Header.imageSize] at hImage
  simp only [ofImage, Header.prgRomOffset, Array.size_extract]
  omega

/-- The pattern chip has the size that the header declares, or that of a writable one. -/
theorem size_chr_ofImage :
    (ofImage header image).chr.size =
      if header.chrRomBanks = 0 then Header.chrRomBankSize else header.chrRomSize := by
  rw [Header.imageSize] at hImage
  simp only [ofImage, Header.prgRomOffset]
  split
  · exact Array.size_replicate
  · rw [Array.size_extract]
    omega

end CartridgeMemory

theorem toNat_mul_pos {banks : UInt8} (hBanks : banks ≠ 0) {size : Nat} (hSize : 0 < size) :
    0 < banks.toNat * size :=
  Nat.mul_pos (UInt8.lt_iff_toNat_lt.mp (UInt8.pos_iff_ne_zero.mpr hBanks)) hSize

/-- A cartridge that loads has all three chips. -/
theorem Cartridge.hasChips_of_load {image : Array UInt8} {log : Log} {cartridge : Cartridge Nrom}
    (hLoad : (Cartridge.outcome image log).1 = .ok cartridge) : cartridge.board.HasChips := by
  have hPrgRam := (Nrom.Loaded.load hLoad).size_prgRam
  obtain ⟨hAccepted, rfl⟩ := (outcome_ok_iff image log cartridge).mp hLoad
  have hImage : (headerOf image).imageSize ≤ image.size := by
    rw [imageSize_headerOf]
    exact declaredSize_le hAccepted
  have hSome : 0 < CartridgeMemory.prgRamSize := by decide
  refine ⟨?_, Nat.lt_of_lt_of_eq hSome hPrgRam.symm, ?_⟩
  · refine Nat.lt_of_lt_of_eq ?_ (CartridgeMemory.size_prgRom_ofImage hImage).symm
    rw [Header.prgRomSize, prgRomBanks_headerOf]
    exact toNat_mul_pos (byteAt_ne_zero hAccepted) (by decide)
  · refine Nat.lt_of_lt_of_eq ?_ (CartridgeMemory.size_chr_ofImage hImage).symm
    split
    · decide
    · exact toNat_mul_pos ‹_› (by decide)

/-- The number of the cell of nametable memory behind an address. -/
def nametablePlace (mirroring : Mirroring) (address : UInt16) : Nat :=
  let logical := address.toNat / 0x400 % 4
  let table :=
    match mirroring with
    | .horizontal => logical / 2
    | .vertical => logical % 2
    | .singleScreenLower => 0
    | .singleScreenUpper => 1
    | .fourScreen => logical
  0x400 * table + address.toNat % 0x400

/-- The place of a nametable byte, as a number. -/
theorem val_nametableOffset (mirroring : Mirroring) (address : UInt16) :
    (nametableOffset mirroring address).val = nametablePlace mirroring address := by
  cases mirroring <;> rfl

namespace VideoMemory

def read? (memory : VideoMemory Nrom) (address : UInt16) : Option UInt8 :=
  let address := addressOf address
  if address < 0x2000 then memory.cartridge.board.readChr? address
  else memory.nametables[nametablePlace memory.cartridge.board.memory.mirroring address]?

def write? (memory : VideoMemory Nrom) (address : UInt16) (value : UInt8) :
    Option (VideoMemory Nrom) :=
  let address := addressOf address
  if address < 0x2000 then do
    let board ← memory.cartridge.board.writeChr? address value
    return { memory with cartridge.board := board }
  else do
    let place := nametablePlace memory.cartridge.board.memory.mirroring address
    return { memory with nametables := ← storeAt? memory.nametables place value }

variable {memory : VideoMemory Nrom} (hChips : memory.cartridge.board.HasChips) (address : UInt16)

include hChips

theorem read?_eq : memory.read? address = some (memory.read address) := by
  simp only [read?, read, hChips.readChr?_eq, ← val_nametableOffset]
  split
  · rfl
  · exact Vector.getElem?_eq_getElem (nametableOffset _ _).isLt

theorem write?_eq (value : UInt8) :
    memory.write? address value = some (memory.write address value) := by
  simp only [write?, write, hChips.writeChr?_eq, ← val_nametableOffset,
    storeAt?_eq _ (nametableOffset _ _).isLt]
  split <;> rfl

end VideoMemory

namespace Cartridge

/-- Two cartridges have the same header and the same chips, but for the bytes of writable memory. -/
structure SameChips (cartridge other : Cartridge Nrom) : Prop where
  header : cartridge.header = other.header
  board : cartridge.board.SameChips other.board

namespace SameChips

variable {cartridge other third : Cartridge Nrom}

theorem refl (cartridge : Cartridge Nrom) : SameChips cartridge cartridge :=
  ⟨rfl, .refl _⟩

theorem trans (hFirst : SameChips cartridge other) (hSecond : SameChips other third) :
    SameChips cartridge third :=
  ⟨hFirst.header.trans hSecond.header, hFirst.board.trans hSecond.board⟩

end SameChips

end Cartridge

namespace Bus

def drive? (bus : Bus Nrom) (address : UInt16) : Option (Bus Nrom) :=
  if address < 0x2000 then do
    return { bus with latch := ← bus.ram[address.toNat % 2048]? }
  else if address < 0x4000 then do
    let ppu ← bus.ppu.read? bus.video.read? (Ppu.Register.ofAddress address)
    return { bus with ppu, latch := ppu.latch }
  else if address < 0x4020 then some (bus.drive address)
  else do
    let value? ← bus.video.cartridge.board.readPrg? address
    return { bus with latch := value?.getD bus.latch }

def read? (bus : Bus Nrom) (address : UInt16) : Option (UInt8 × Bus Nrom) := do
  let bus ← bus.drive? address
  return (bus.latch, bus)

def peek? (bus : Bus Nrom) (address : UInt16) : Option UInt8 :=
  if address < 0x2000 then bus.ram[address.toNat % 2048]?
  else if address < 0x4020 then some bus.latch
  else do return (← bus.video.cartridge.board.readPrg? address).getD bus.latch

def storeVideo? (video : VideoMemory Nrom) (address? : Option UInt16) (value : UInt8) :
    Option (VideoMemory Nrom) :=
  match address? with
  | some address => video.write? address value
  | none => some video

/-- Writes a byte. Between the picture unit and the cartridge there is no memory. -/
def write? (bus : Bus Nrom) (address : UInt16) (value : UInt8) : Option (Bus Nrom) :=
  if address < 0x2000 then do
    return { bus with latch := value, ram := ← storeAt? bus.ram (address.toNat % 2048) value }
  else if address < 0x4000 then do
    let register := Ppu.Register.ofAddress address
    let ppu ← bus.ppu.write? register value
    let video ← storeVideo? bus.video (bus.ppu.storeAddress? register) value
    return { bus with latch := value, ppu, video }
  else if address < 0x4020 then some (bus.write address value)
  else do
    let board ← bus.video.cartridge.board.writePrg? address value
    return { bus with latch := value, video.cartridge.board := board }

def access? (bus : Bus Nrom) : Access → Option (Bus Nrom)
  | .read address => bus.drive? address
  | .write address value => bus.write? address value

def accessAll? : Bus Nrom → List Access → Option (Bus Nrom)
  | bus, [] => some bus
  | bus, access :: accesses => do (← bus.access? access).accessAll? accesses

def copyToOam? (bus : Bus Nrom) (source : UInt16) : (count : Nat) → Option (Bus Nrom)
  | 0 => some bus
  | count + 1 => do
    let (value, bus) ← bus.read? source
    (← bus.write? oamDataAddress value).copyToOam? (source + 1) count

def runPpu? (bus : Bus Nrom) (dots : Nat) : Option (Bus Nrom) := do
  return { bus with ppu := ← bus.ppu.run? bus.video.read? dots }

section Chips

variable {bus : Bus Nrom} (hChips : bus.video.cartridge.board.HasChips)

include hChips

theorem drive?_eq (address : UInt16) : bus.drive? address = some (bus.drive address) := by
  have hRam : bus.ram[address.toNat % 2048]? = some bus.ram[ramIndex address] :=
    Vector.getElem?_eq_getElem (ramIndex address).isLt
  simp only [drive?, hRam, Ppu.read?_eq (VideoMemory.read?_eq hChips), hChips.readPrg?_eq]
  split
  · rename_i hLow
    simp only [drive, if_pos hLow]
    rfl
  split
  · rename_i hLow hPpu
    simp only [drive, if_neg hLow, if_pos hPpu]
    rfl
  split
  · rfl
  · rename_i hHigh
    have hAsks := not_asks_of_board (UInt16.not_lt.mp hHigh)
    rw [bus.drive_eq hAsks, peek, if_neg ‹_›, if_neg hHigh]
    rfl

theorem peek?_eq (address : UInt16) : bus.peek? address = some (bus.peek address) := by
  have hRam : bus.ram[address.toNat % 2048]? = some bus.ram[ramIndex address] :=
    Vector.getElem?_eq_getElem (ramIndex address).isLt
  simp only [peek?, peek, hRam, hChips.readPrg?_eq]
  split
  · rfl
  · split <;> rfl

theorem storeVideo?_eq (address? : Option UInt16) (value : UInt8) :
    storeVideo? bus.video address? value = some (storeVideo bus.video address? value) := by
  cases address? with
  | none => rfl
  | some address => exact VideoMemory.write?_eq hChips address value

theorem write?_eq (address : UInt16) (value : UInt8) :
    bus.write? address value = some (bus.write address value) := by
  have hRam := storeAt?_eq bus.ram (ramIndex address).isLt value
  simp only [write?, Ppu.write?_eq, storeVideo?_eq hChips, hChips.writePrg?_eq]
  split
  · rename_i hLow
    simp only [write, if_pos hLow]
    exact congrArg (Option.bind · _) hRam
  split
  · rename_i hLow hPpu
    simp only [write, if_neg hLow, if_pos hPpu]
    rfl
  split
  · rfl
  · rename_i hLow hPpu hHigh
    have hBoard := UInt16.not_lt.mp hHigh
    have hDma : address ≠ dmaAddress := by
      rintro rfl
      exact absurd hBoard (by decide)
    have hPad : address ≠ firstPadAddress := by
      rintro rfl
      exact absurd hBoard (by decide)
    simp only [write, if_neg hLow, if_neg hPpu, if_neg hDma, if_neg hPad, if_neg hHigh]
    rfl

/-- Every access of the bus finds all that it uses. -/
theorem access?_eq (access : Access) : bus.access? access = some (bus.access access) := by
  cases access with
  | read address => exact drive?_eq hChips address
  | write address value => exact write?_eq hChips address value

theorem runPpu?_eq (dots : Nat) : bus.runPpu? dots = some (bus.runPpu dots) := by
  rw [runPpu?, Ppu.run?_eq (VideoMemory.read?_eq hChips)]
  rfl

end Chips

theorem sameChips_storeVideo (video : VideoMemory Nrom) (address? : Option UInt16)
    (value : UInt8) : (storeVideo video address? value).cartridge.SameChips video.cartridge := by
  cases address? with
  | none => exact .refl _
  | some address =>
      simp only [storeVideo, VideoMemory.write]
      split
      · exact ⟨rfl, .writeChr _ _ _⟩
      · exact .refl _

theorem sameChips_access (bus : Bus Nrom) (access : Access) :
    (bus.access access).video.cartridge.SameChips bus.video.cartridge := by
  cases access with
  | read address =>
      rw [Bus.access, Bus.read, video_drive]
      exact .refl _
  | write address value =>
      rw [Bus.access]
      have hVideo := bus.video_write address value
      split at hVideo
      · rw [hVideo]
        exact sameChips_storeVideo _ _ _
      · obtain hSame | hBoard := hVideo
        · rw [hSame]
          exact .refl _
        · rw [hBoard]
          exact ⟨rfl, .writePrg _ _ _⟩

/-- No number of accesses exchanges chips. -/
theorem sameChips_accessAll (bus : Bus Nrom) (accesses : List Access) :
    (bus.accessAll accesses).video.cartridge.SameChips bus.video.cartridge := by
  induction accesses generalizing bus with
  | nil => exact .refl _
  | cons access accesses ih => exact (ih (bus.access access)).trans (bus.sameChips_access access)

/-- All accesses find their cells, one after the other. -/
theorem accessAll?_eq {bus : Bus Nrom} (hChips : bus.video.cartridge.board.HasChips)
    (accesses : List Access) : bus.accessAll? accesses = some (bus.accessAll accesses) := by
  induction accesses generalizing bus with
  | nil => rfl
  | cons access accesses ih =>
      rw [accessAll?, access?_eq hChips]
      exact ih ((bus.sameChips_access access).board.hasChips hChips)

/-- A copy to sprite memory finds all bytes of its page. -/
theorem copyToOam?_eq {bus : Bus Nrom} (hChips : bus.video.cartridge.board.HasChips)
    (source : UInt16) (count : Nat) :
    bus.copyToOam? source count = some (bus.copyToOam source count) := by
  induction count generalizing bus source with
  | zero => rfl
  | succ count ih =>
      have hRead := (bus.sameChips_access (.read source)).board.hasChips hChips
      let next := (bus.read source).2.write oamDataAddress (bus.read source).1
      have hWrite : next.video.cartridge.board.HasChips :=
        ((bus.read source).2.sameChips_access (.write _ _)).board.hasChips hRead
      rw [copyToOam?, read?, drive?_eq hChips]
      refine (congrArg (Option.bind · _) (write?_eq hRead oamDataAddress _)).trans ?_
      exact ih hWrite (source + 1)

end Bus

end Nes
