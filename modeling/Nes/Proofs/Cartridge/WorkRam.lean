import Nes.Proofs.Cartridge.Classification
import Nes.Proofs.Cartridge.Nrom

/-! Boards of loaded cartridges, whatever is written to them. Their work memory has a byte of its
own for each address from `$6000` to `$7fff`. -/

namespace Nes

/-- An image that loads has all the bytes that its header declares. -/
theorem Cartridge.declaredSize_le {image : Array UInt8} (hAccepted : rejection image = none) :
    declaredSize image ≤ image.size := by
  rw [rejection, firstReason_eq_none] at hAccepted
  simpa using hAccepted
    ⟨image.size < declaredSize image, .truncated (declaredSize image) image.size⟩
    (by simp [formatChecks])

/-- Work memory has its size with a trainer and without. -/
theorem CartridgeMemory.size_prgRamOf {header : Header} {image : Array UInt8}
    (hImage : header.imageSize ≤ image.size) :
    (prgRamOf header image).size = prgRamSize := by
  rw [prgRamOf]
  split
  · rename_i hTrainer
    rw [Header.imageSize, if_pos hTrainer] at hImage
    simp only [Array.size_append, Array.size_replicate, Array.size_extract, prgRamSize]
    simp only [Header.size, Header.trainerSize] at hImage ⊢
    omega
  · exact Array.size_replicate

namespace Nrom

theorem prgRom_writePrg (board : Nrom) (address : UInt16) (value : UInt8) :
    (Board.writePrg board address value).memory.prgRom = board.memory.prgRom := by
  obtain ⟨prgRam, hWritten⟩ := board.exists_writePrg address value
  rw [hWritten]

/-- A write of the processor changes one byte of work memory, if it is there. -/
theorem prgRam_writePrg (board : Nrom) (address : UInt16) (value : UInt8) :
    (Board.writePrg board address value).memory.prgRam =
      if 0x6000 ≤ address ∧ address < 0x8000 then
        board.memory.prgRam.setIfInBounds
          ((address.toNat - 0x6000) % board.memory.prgRam.size) value
      else board.memory.prgRam := by
  simp only [Board.writePrg, writePrg, apply_ite memory, apply_ite CartridgeMemory.prgRam]

theorem readPrg_writeChr (board : Nrom) (address other : UInt16) (value : UInt8) :
    Board.readPrg (Board.writeChr board address value) other = Board.readPrg board other := by
  simp only [Board.readPrg, Board.writeChr, writeChr]
  split <;> rfl

theorem readPrg_of_program (board : Nrom) {address : UInt16} (hAddress : 0x8000 ≤ address) :
    Board.readPrg board address =
      some (repeated board.memory.prgRom (address.toNat - 0x8000)) :=
  if_pos hAddress

/-- Work memory that fills its range has a byte for each address of it. -/
theorem readPrg_of_work {board : Nrom} (hSize : board.memory.prgRam.size = 0x2000)
    {address : UInt16} (hLow : 0x6000 ≤ address) (hHigh : address < 0x8000) :
    Board.readPrg board address = board.memory.prgRam[address.toNat - 0x6000]? := by
  have hRam : 0 < board.memory.prgRam.size := by
    rw [hSize]
    decide
  have hIndex : (address.toNat - 0x6000) % board.memory.prgRam.size = address.toNat - 0x6000 := by
    rw [hSize]
    exact Nat.mod_eq_of_lt (Nat.sub_lt_right_of_lt_add hLow hHigh)
  have hRead := getElem?_repeated board.memory.prgRam (address.toNat - 0x6000) hRam
  rw [hIndex] at hRead
  rw [hRead]
  exact (if_neg (UInt16.not_le.mpr hHigh)).trans (if_pos ⟨hLow, Nat.ne_of_gt hRam⟩)

/-- A byte in work memory is read back, if there is any work memory. -/
theorem readPrg_written (board : Nrom) {address : UInt16} (value : UInt8)
    (hLow : 0x6000 ≤ address) (hHigh : address < 0x8000) :
    Board.readPrg (Board.writePrg board address value) address =
      if board.memory.prgRam.size = 0 then none else some value := by
  let index := (address.toNat - 0x6000) % board.memory.prgRam.size
  have hProgram : ¬0x8000 ≤ address := UInt16.not_le.mpr hHigh
  have hWritten : (writePrg board address value).memory.prgRam =
      board.memory.prgRam.setIfInBounds index value := by
    rw [writePrg, if_pos ⟨hLow, hHigh⟩]
  simp only [Board.readPrg, Board.writePrg, readPrg, if_neg hProgram, hWritten, repeated,
    Array.size_setIfInBounds]
  split
  · rename_i hRam
    have hInside : index < board.memory.prgRam.size := Nat.mod_lt _ (Nat.pos_of_ne_zero hRam.2)
    rw [if_neg hRam.2]
    simp [index, hInside]
  · rename_i hNone
    rw [if_pos (by simpa [hLow] using hNone)]

/-- The boards of loaded cartridges, after any writes to them. -/
inductive Loaded : Nrom → Prop where
  | load {image : Array UInt8} {log : Log} {cartridge : Cartridge Nrom}
      (hLoad : (Cartridge.outcome image log).1 = .ok cartridge) : Loaded cartridge.board
  | storePrg {board : Nrom} (prior : Loaded board) (address : UInt16) (value : UInt8) :
      Loaded (Board.writePrg board address value)
  | storeChr {board : Nrom} (prior : Loaded board) (address : UInt16) (value : UInt8) :
      Loaded (Board.writeChr board address value)

namespace Loaded

variable {board : Nrom}

theorem size_prgRam (hLoaded : Loaded board) : board.memory.prgRam.size = 0x2000 := by
  induction hLoaded with
  | @load image log cartridge hLoad =>
      obtain ⟨hAccepted, rfl⟩ := (Cartridge.outcome_ok_iff image log cartridge).mp hLoad
      refine CartridgeMemory.size_prgRamOf ?_
      rw [Cartridge.imageSize_headerOf]
      exact Cartridge.declaredSize_le hAccepted
  | storePrg prior address value ih =>
      rw [prgRam_writePrg]
      split
      · rw [Array.size_setIfInBounds, ih]
      · exact ih
  | storeChr prior address value ih =>
      rw [← ih]
      simp only [Board.writeChr, writeChr]
      split <;> rfl

/-- A loaded board answers everywhere from its work memory on. -/
theorem exists_readPrg (hLoaded : Loaded board) {address : UInt16} (hAddress : 0x6000 ≤ address) :
    ∃ byte, Board.readPrg board address = some byte := by
  by_cases hProgram : 0x8000 ≤ address
  · exact ⟨_, readPrg_of_program board hProgram⟩
  · rw [UInt16.not_le] at hProgram
    have hInside : address.toNat - 0x6000 < board.memory.prgRam.size := by
      rw [hLoaded.size_prgRam]
      exact Nat.sub_lt_right_of_lt_add hAddress hProgram
    refine ⟨board.memory.prgRam[address.toNat - 0x6000], ?_⟩
    rw [readPrg_of_work hLoaded.size_prgRam hAddress hProgram, Array.getElem?_eq_getElem hInside]

/-- A byte that is written to work memory is read back at its address, and at no other one. -/
theorem readPrg_writePrg (hLoaded : Loaded board) (address other : UInt16) (value : UInt8) :
    Board.readPrg (Board.writePrg board address value) other =
      if 0x6000 ≤ address ∧ address < 0x8000 ∧ address = other then some value
      else Board.readPrg board other := by
  have hSize := hLoaded.size_prgRam
  have hKept := (hLoaded.storePrg address value).size_prgRam
  by_cases hProgram : 0x8000 ≤ other
  · rw [readPrg_of_program _ hProgram, readPrg_of_program _ hProgram, prgRom_writePrg, if_neg]
    rintro ⟨-, hHigh, rfl⟩
    exact UInt16.not_lt.mpr hProgram hHigh
  by_cases hWork : 0x6000 ≤ other
  · rw [UInt16.not_le] at hProgram
    rw [readPrg_of_work hKept hWork hProgram, readPrg_of_work hSize hWork hProgram,
      prgRam_writePrg]
    by_cases hStored : 0x6000 ≤ address ∧ address < 0x8000
    · have hIndex : address.toNat - 0x6000 < 0x2000 :=
        Nat.sub_lt_right_of_lt_add hStored.1 hStored.2
      have hSame : address.toNat - 0x6000 = other.toNat - 0x6000 ↔ address = other := by
        have hFirst : 0x6000 ≤ address.toNat := hStored.1
        have hSecond : 0x6000 ≤ other.toNat := hWork
        rw [← UInt16.toNat_inj]
        omega
      simp only [hStored, true_and, hSize, Nat.mod_eq_of_lt hIndex,
        Array.getElem?_setIfInBounds, hIndex, if_true, hSame]
    · rw [if_neg hStored, if_neg fun hSame => hStored ⟨hSame.1, hSame.2.1⟩]
  · rw [UInt16.not_le] at hWork
    rw [readPrg_open _ hWork, readPrg_open _ hWork, if_neg]
    rintro ⟨hLow, -, rfl⟩
    exact UInt16.not_lt.mpr hLow hWork

end Loaded

end Nrom

end Nes
