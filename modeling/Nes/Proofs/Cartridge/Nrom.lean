import Nes.Cartridge.Nrom

/-! What the simplest board presents of its chips, and what writes to pattern memory do. -/

namespace Nes.Nrom

/-- An offset into a chip that has bytes leads to one of them. -/
theorem getElem?_repeated (chip : Array UInt8) (offset : Nat) (hChip : 0 < chip.size) :
    chip[offset % chip.size]? = some (repeated chip offset) := by
  have hInside : offset % chip.size < chip.size := Nat.mod_lt _ hChip
  simp [repeated, hInside]

theorem toNat_address (offset : Nat) (hOffset : offset < 0x10000) :
    (UInt16.ofNat offset).toNat = offset :=
  UInt16.toNat_ofNat_of_lt' hOffset

/-- Program memory fills the upper half of the address space. -/
theorem readPrg_program (board : Nrom) {offset : Nat} (hOffset : offset < 0x8000) :
    Board.readPrg board (.ofNat (0x8000 + offset)) =
      some (repeated board.memory.prgRom offset) := by
  have hAddress := toNat_address (0x8000 + offset) (by omega)
  have hHigh : (0x8000 : UInt16) ≤ .ofNat (0x8000 + offset) := by
    rw [UInt16.le_iff_toNat_le, hAddress]
    exact Nat.le_add_right _ _
  simp only [Board.readPrg, readPrg, if_pos hHigh, hAddress, Nat.add_sub_cancel_left]

theorem readPrg_work (board : Nrom) {offset : Nat} (hOffset : offset < 0x2000)
    (hRam : board.memory.prgRam.size ≠ 0) :
    Board.readPrg board (.ofNat (0x6000 + offset)) =
      some (repeated board.memory.prgRam offset) := by
  have hAddress := toNat_address (0x6000 + offset) (by omega)
  have hLow : ¬(0x8000 : UInt16) ≤ .ofNat (0x6000 + offset) := by
    rw [UInt16.le_iff_toNat_le, hAddress]
    exact Nat.not_le_of_lt (Nat.add_lt_add_left hOffset _)
  have hHigh : (0x6000 : UInt16) ≤ .ofNat (0x6000 + offset) := by
    rw [UInt16.le_iff_toNat_le, hAddress]
    exact Nat.le_add_right _ _
  simp only [Board.readPrg, readPrg, if_neg hLow, if_pos (And.intro hHigh hRam), hAddress,
    Nat.add_sub_cancel_left]

/-- Nothing answers below work memory. -/
theorem readPrg_open (board : Nrom) {address : UInt16} (hAddress : address < 0x6000) :
    Board.readPrg board address = none := by
  rw [UInt16.lt_iff_toNat_lt] at hAddress
  have hLow : ¬(0x8000 : UInt16) ≤ address := by
    rw [UInt16.le_iff_toNat_le]
    exact Nat.not_le_of_lt (Nat.lt_trans hAddress (by decide))
  have hOpen : ¬((0x6000 : UInt16) ≤ address ∧ board.memory.prgRam.size ≠ 0) := by
    rw [UInt16.le_iff_toNat_le]
    exact fun hBoth => Nat.not_le_of_lt hAddress hBoth.1
  simp only [Board.readPrg, readPrg, if_neg hLow, if_neg hOpen]

theorem readChr_eq (board : Nrom) (address : UInt16) :
    Board.readChr board address = repeated board.memory.chr (address.toNat % 0x2000) :=
  rfl

/-- A write to a program address changes no chip but work memory. -/
theorem exists_writePrg (board : Nrom) (address : UInt16) (value : UInt8) :
    ∃ prgRam, Board.writePrg board address value = { board with memory.prgRam := prgRam } := by
  simp only [Board.writePrg, writePrg]
  split
  · exact ⟨_, rfl⟩
  · exact ⟨board.memory.prgRam, rfl⟩

/-- Pattern memory that cannot be written stays as it is. -/
theorem writeChr_rom {board : Nrom} (hRom : board.memory.chrIsRam = false) (address : UInt16)
    (value : UInt8) : Board.writeChr board address value = board := by
  simp [Board.writeChr, writeChr, hRom]

/-- A byte that is written to pattern memory is found at all addresses of its cell, if the memory
takes writes. -/
theorem readChr_writeChr {board : Nrom} (hChr : 0 < board.memory.chr.size)
    (address other : UInt16) (value : UInt8) :
    Board.readChr (Board.writeChr board address value) other =
      if board.memory.chrIsRam = true ∧ address.toNat % 0x2000 % board.memory.chr.size =
        other.toNat % 0x2000 % board.memory.chr.size then value
      else Board.readChr board other := by
  cases hRam : board.memory.chrIsRam with
  | false => rw [writeChr_rom hRam, if_neg (by simp)]
  | true =>
      have hInside := Nat.mod_lt (address.toNat % 0x2000) hChr
      simp only [Board.writeChr, Board.readChr, writeChr, readChr, repeated, hRam, if_true,
        Array.size_setIfInBounds, Array.getD_eq_getD_getElem?, Array.getElem?_setIfInBounds,
        hInside, true_and]
      split <;> rfl

/-- Writable pattern memory fills the range of the picture unit. -/
structure HasChrRam (board : Nrom) : Prop where
  isRam : board.memory.chrIsRam = true
  size : board.memory.chr.size = 0x2000

namespace HasChrRam

variable {board : Nrom}

theorem write (hRam : HasChrRam board) (address : UInt16) (value : UInt8) :
    HasChrRam (Board.writeChr board address value) := by
  constructor
  · simp [Board.writeChr, writeChr, hRam.isRam]
  · simp [Board.writeChr, writeChr, hRam.isRam, hRam.size]

/-- A byte that was written to pattern memory is read back at all its mirrors. -/
theorem read_write (hRam : HasChrRam board) (address other : UInt16) (value : UInt8) :
    Board.readChr (Board.writeChr board address value) other =
      if address.toNat % 0x2000 = other.toNat % 0x2000 then value
      else Board.readChr board other := by
  have hChr : 0 < board.memory.chr.size := by
    rw [hRam.size]
    decide
  rw [readChr_writeChr hChr, hRam.isRam, hRam.size]
  simp only [Nat.mod_mod, true_and]

end HasChrRam

def writeAllChr (board : Nrom) (writes : List (UInt16 × UInt8)) : Nrom :=
  writes.foldl (fun board write => Board.writeChr board write.1 write.2) board

/-- The last one of some writes to a cell of pattern memory, or the byte that was there before. -/
def lastWritten (before : UInt8) (writes : List (UInt16 × UInt8)) (address : UInt16) : UInt8 :=
  writes.foldl
    (fun byte write => if write.1.toNat % 0x2000 = address.toNat % 0x2000 then write.2 else byte)
    before

/-- Behind a number of writes to pattern memory, the last one at a place is read back. -/
theorem HasChrRam.read_writeAll {board : Nrom} (hRam : HasChrRam board)
    (writes : List (UInt16 × UInt8)) (address : UInt16) :
    Board.readChr (writeAllChr board writes) address =
      lastWritten (Board.readChr board address) writes address := by
  induction writes generalizing board with
  | nil => rfl
  | cons write writes ih =>
      rw [writeAllChr, lastWritten, List.foldl_cons, List.foldl_cons,
        ← hRam.read_write write.1 address write.2]
      exact ih (hRam.write write.1 write.2)

end Nes.Nrom
