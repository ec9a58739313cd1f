import Nes.Ppu.VideoMemory
import Nes.Proofs.Cartridge.Dump

/-! Cartridges that can be exchanged for others without a difference on either bus. The program
memory of the simplest board repeats over its range, so that a single bank can be exchanged for two
copies of it. -/

namespace Nes

/-- A way to exchange a cartridge that neither the processor nor the picture unit can tell. -/
structure Exchange (β γ : Type) [Board β] [Board γ] where
  header : Header → Header
  board : β → γ
  readPrg (old : β) (address : UInt16) :
    Board.readPrg (board old) address = Board.readPrg old address
  writePrg (old : β) (address : UInt16) (value : UInt8) :
    Board.writePrg (board old) address value = board (Board.writePrg old address value)
  readChr (old : β) (address : UInt16) :
    Board.readChr (board old) address = Board.readChr old address
  writeChr (old : β) (address : UInt16) (value : UInt8) :
    Board.writeChr (board old) address value = board (Board.writeChr old address value)
  mirroring (old : β) : Board.mirroring (board old) = Board.mirroring old
  irq (old : β) : Board.irq (board old) = Board.irq old

namespace Exchange

variable {β γ : Type} [Board β] [Board γ] (exchange : Exchange β γ)

def cartridge (old : Cartridge β) : Cartridge γ where
  header := exchange.header old.header
  board := exchange.board old.board

def video (memory : VideoMemory β) : VideoMemory γ where
  nametables := memory.nametables
  cartridge := exchange.cartridge memory.cartridge

/-- The picture unit reads the same bytes. -/
theorem read_video (memory : VideoMemory β) : (exchange.video memory).read = memory.read := by
  funext address
  simp only [VideoMemory.read, video, cartridge, exchange.readChr, exchange.mirroring]

/-- A write to video memory commutes with the exchange. -/
theorem write_video (memory : VideoMemory β) (address : UInt16) (value : UInt8) :
    (exchange.video memory).write address value = exchange.video (memory.write address value) := by
  simp only [VideoMemory.write, video, cartridge, exchange.writeChr, exchange.mirroring]
  split <;> rfl

end Exchange

namespace Nrom

/-- A chip that repeats over a range may as well be twice as long. -/
theorem repeated_append_self (chip : Array UInt8) (offset : Nat) :
    repeated (chip ++ chip) offset = repeated chip offset := by
  obtain hEmpty | hChip := Nat.eq_zero_or_pos chip.size
  · obtain rfl := Array.eq_empty_of_size_eq_zero hEmpty
    rfl
  · have hSame : offset % (chip.size + chip.size) % chip.size = offset % chip.size :=
      Nat.mod_mod_of_dvd offset ⟨2, by omega⟩
    have hInside : offset % (chip.size + chip.size) < chip.size + chip.size :=
      Nat.mod_lt _ (by omega)
    simp only [repeated, Array.size_append, Array.getD_eq_getD_getElem?]
    by_cases hFirst : offset % (chip.size + chip.size) < chip.size
    · rw [Array.getElem?_append_left hFirst, ← hSame, Nat.mod_eq_of_lt hFirst]
    · rw [Nat.not_lt] at hFirst
      have hSecond : offset % (chip.size + chip.size) - chip.size < chip.size := by omega
      rw [Array.getElem?_append_right hFirst, ← hSame, Nat.mod_eq_sub_mod hFirst,
        Nat.mod_eq_of_lt hSecond]

/-- A board whose program memory holds everything twice. -/
def doubled (board : Nrom) : Nrom :=
  { board with memory.prgRom := board.memory.prgRom ++ board.memory.prgRom }

/-- A doubled program is read as the program is. -/
theorem readPrg_doubled (board : Nrom) (address : UInt16) :
    board.doubled.readPrg address = board.readPrg address := by
  by_cases hProgram : 0x8000 ≤ address
  · simp only [readPrg, if_pos hProgram, doubled, repeated_append_self]
  · simp only [readPrg, if_neg hProgram]
    rfl

theorem writePrg_doubled (board : Nrom) (address : UInt16) (value : UInt8) :
    board.doubled.writePrg address value = (board.writePrg address value).doubled := by
  by_cases hWork : 0x6000 ≤ address ∧ address < 0x8000
  · simp only [writePrg, if_pos hWork, doubled]
  · simp only [writePrg, if_neg hWork]

theorem writeChr_doubled (board : Nrom) (address : UInt16) (value : UInt8) :
    board.doubled.writeChr address value = (board.writeChr address value).doubled := by
  rw [writeChr, writeChr, apply_ite doubled]
  rfl

/-- Doubling program memory goes unnoticed. The header has twice as many banks. -/
def doubling : Exchange Nrom Nrom where
  header old := { old with prgRomBanks := old.prgRomBanks + old.prgRomBanks }
  board := doubled
  readPrg := readPrg_doubled
  writePrg := writePrg_doubled
  readChr _ _ := rfl
  writeChr := writeChr_doubled
  mirroring _ := rfl
  irq _ := rfl

end Nrom

namespace Cartridge

/-- The number of banks of program memory has its own byte in the header. -/
theorem headerBytes_eq_set (prgBanks otherBanks chrBanks flags : UInt8) (rest : Vector UInt8 9) :
    headerBytes otherBanks chrBanks flags rest =
      (headerBytes prgBanks chrBanks flags rest).setIfInBounds 4 otherBanks := by
  rw [headerBytes, headerBytes, Array.setIfInBounds_append_left (by decide : 4 < 7)]
  rfl

/-- Two headers that differ in the size of the program have all other bytes in common. -/
theorem byteAt_headerBytes {index : Nat} (hOther : index ≠ 4)
    (prgBanks otherBanks chrBanks flags : UInt8) (rest : Vector UInt8 9) :
    byteAt (headerBytes prgBanks chrBanks flags rest) index =
      byteAt (headerBytes otherBanks chrBanks flags rest) index := by
  rw [headerBytes_eq_set prgBanks otherBanks, byteAt, byteAt, Array.getD_eq_getD_getElem?,
    Array.getD_eq_getD_getElem?, Array.getElem?_setIfInBounds_ne hOther.symm]

theorem byteAt_headerBytes_prgBanks (prgBanks chrBanks flags : UInt8) (rest : Vector UInt8 9) :
    byteAt (headerBytes prgBanks chrBanks flags rest) 4 = prgBanks := by
  simp [byteAt, headerBytes]

/-- A header with another size of the program declares the same otherwise. -/
theorem headerOf_headerBytes (prgBanks otherBanks chrBanks flags : UInt8) (rest : Vector UInt8 9) :
    headerOf (headerBytes otherBanks chrBanks flags rest) =
      { headerOf (headerBytes prgBanks chrBanks flags rest) with prgRomBanks := otherBanks } := by
  have hByte {index : Nat} (hOther : index ≠ 4) :=
    byteAt_headerBytes hOther otherBanks prgBanks chrBanks flags rest
  simp (disch := decide) only [headerOf, Header.ofBytes, Header.mapperOf, Header.mirroringOf,
    Header.isExtended, Header.hasDirtyPadding, getElem_firstBytes,
    byteAt_headerBytes_prgBanks, hByte]

/-- The mapper number does not depend on the size of the program. -/
theorem mapperNumber_headerBytes (prgBanks otherBanks chrBanks flags : UInt8)
    (rest : Vector UInt8 9) :
    mapperNumber (headerBytes otherBanks chrBanks flags rest) =
      mapperNumber (headerBytes prgBanks chrBanks flags rest) := by
  rw [← toNat_mapperOf, ← toNat_mapperOf]
  exact congrArg (UInt16.toNat ∘ Header.mapper)
    (headerOf_headerBytes prgBanks otherBanks chrBanks flags rest)

namespace Dump

variable (dump : Dump) (hSingle : dump.prgBanks = 1)

/-- The same parts with two banks of program memory that both hold the only bank. -/
def doubled : Dump where
  prgBanks := 2
  chrBanks := dump.chrBanks
  flags := dump.flags
  rest := dump.rest
  trainer := dump.trainer
  prg := (dump.prg ++ dump.prg).cast (by rw [hSingle]; rfl)
  chr := dump.chr
  hasPrg := by decide
  flagsTrainer := dump.flagsTrainer
  flagsBoard := (mapperNumber_headerBytes dump.prgBanks 2 _ _ _).trans dump.flagsBoard

/-- Doubling the program in the image doubles the program in the cartridge. -/
theorem cartridge_doubled :
    (dump.doubled hSingle).cartridge = Nrom.doubling.cartridge dump.cartridge := by
  have hBanks : (headerOf dump.header).prgRomBanks = 1 := by
    rw [prgRomBanks_headerOf, header, byteAt_headerBytes_prgBanks, hSingle]
  have hHeader : headerOf (dump.doubled hSingle).header =
      Nrom.doubling.header (headerOf dump.header) := by
    simp only [Nrom.doubling, hBanks]
    exact headerOf_headerBytes dump.prgBanks 2 dump.chrBanks dump.flags dump.rest
  have hProgram : (dump.doubled hSingle).prg.toArray = dump.prg.toArray ++ dump.prg.toArray := rfl
  simp only [cartridge, hHeader, Exchange.cartridge, Nrom.doubling, Nrom.doubled, memory, hProgram]
  rfl

end Dump

end Cartridge

end Nes
