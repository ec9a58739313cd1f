import Nes.Proofs.Bus.MemoryLaw

/-! Where memory answers, and where nothing does. A read of such an address gives the byte that
looking shows and changes nothing but the last byte on the bus. -/

namespace Nes.Bus

variable {β : Type} [Board β] {bus other : Bus β}

/-- The memory of the console or the cartridge answers reads of an address. -/
abbrev Driven (bus : Bus β) (address : UInt16) : Prop :=
  address < 0x2000 ∨
    (0x4020 ≤ address ∧ (Board.readPrg bus.video.cartridge.board address).isSome = true)

/-- Nothing on the cartridge answers reads of an address. -/
abbrev Open (bus : Bus β) (address : UInt16) : Prop :=
  0x4020 ≤ address ∧ Board.readPrg bus.video.cartridge.board address = none

/-- Two buses have the same memory and the same cartridge. -/
structure SameMemory (bus other : Bus β) : Prop where
  ram : bus.ram = other.ram
  video : bus.video = other.video

theorem SameMemory.read (hSame : other.SameMemory bus) (address : UInt16) :
    (other.read address).2.SameMemory bus :=
  ⟨(other.ram_drive address).trans hSame.ram, (other.video_drive address).trans hSame.video⟩

/-- No device is behind the addresses of the board. -/
theorem not_asks_of_board {address : UInt16} (hBoard : 0x4020 ≤ address) : ¬Asks address := by
  rintro (⟨-, hHigh⟩ | rfl | rfl)
  · grind
  · exact absurd hBoard (by decide)
  · exact absurd hBoard (by decide)

/-- No device is behind the addresses of work memory. -/
theorem not_asks_of_workMemory {address : UInt16} (hPlace : InWorkMemory address) :
    ¬Asks address := by
  obtain hRam | ⟨hWork, -⟩ := hPlace
  · rintro (⟨hLow, -⟩ | rfl | rfl)
    · exact UInt16.not_lt.mpr hLow hRam
    · exact absurd hRam (by decide)
    · exact absurd hRam (by decide)
  · exact not_asks_of_board (UInt16.le_trans (by decide) hWork)

/-- Where neither the picture unit nor a controller is asked, a second read finds everything as the
first one has left it. -/
theorem drive_again (bus : Bus β) {address : UInt16} (hAddress : ¬Asks address) :
    (bus.drive address).drive address = bus.drive address := by
  have hSettled : ({ bus with latch := bus.peek address } : Bus β).peek address =
      bus.peek address := by
    simp only [peek]
    split
    · rfl
    · split
      · rfl
      · cases Board.readPrg bus.video.cartridge.board address <;> rfl
  rw [bus.drive_eq hAddress, drive_eq _ hAddress, hSettled]

/-- Work memory has the byte that was just written. -/
theorem peek_written (bus : Bus Nrom) {address : UInt16} (value : UInt8)
    (hPlace : InWorkMemory address) : (bus.write address value).peek address = value := by
  by_cases hRam : address < 0x2000
  · rw [peek, if_pos hRam, ram_write, if_pos hRam]
    exact Vector.getElem_set_self _
  · obtain ⟨hLow, hHigh⟩ := hPlace.resolve_left hRam
    have hRegister : ¬address < 0x4020 :=
      UInt16.not_lt.mpr (UInt16.le_trans (by decide) hLow)
    obtain ⟨hBelow, -⟩ | ⟨-, hWritten⟩ := bus.board_write address value
    · exact absurd hBelow hRegister
    · rw [peek, if_neg hRam, if_neg hRegister, hWritten, Nrom.readPrg_written _ _ hLow hHigh,
        latch_write]
      split <;> rfl

/-- A read finds in work memory the byte that was just written, which is on the bus already. -/
theorem drive_write (bus : Bus Nrom) {address : UInt16} (value : UInt8)
    (hPlace : InWorkMemory address) :
    (bus.write address value).drive address = bus.write address value := by
  rw [drive_eq _ (not_asks_of_workMemory hPlace), peek_written _ _ hPlace]
  exact congrArg (fun latch => { bus.write address value with latch })
    (bus.latch_write address value).symm

namespace Driven

variable {address : UInt16}

/-- A place stays driven as long as memory stays as it is. -/
theorem of_same (hDriven : bus.Driven address) (hSame : other.SameMemory bus) :
    other.Driven address := by
  rw [Driven, hSame.video]
  exact hDriven

theorem peek_same (hDriven : bus.Driven address) (hSame : other.SameMemory bus) :
    other.peek address = bus.peek address := by
  obtain hRam | ⟨hBoard, hSome⟩ := hDriven
  · simp only [peek, if_pos hRam, hSame.ram]
  · have hRam : ¬address < 0x2000 := by grind
    obtain ⟨byte, hByte⟩ := Option.isSome_iff_exists.mp hSome
    simp only [peek, if_neg hRam, if_neg (UInt16.not_lt.mpr hBoard), hSame.video, hByte,
      Option.getD_some]

/-- No device is behind a driven place. -/
theorem not_asks (hDriven : bus.Driven address) : ¬Asks address := by
  obtain hRam | ⟨hBoard, -⟩ := hDriven
  · exact not_asks_of_workMemory (.inl hRam)
  · exact not_asks_of_board hBoard

theorem read_eq (hDriven : bus.Driven address) : (bus.read address).1 = bus.peek address :=
  latch_drive bus hDriven.not_asks

/-- A second read of memory finds everything as the first one has left it. -/
theorem drive_drive (hDriven : bus.Driven address) :
    (bus.drive address).drive address = bus.drive address :=
  bus.drive_again hDriven.not_asks

end Driven

namespace Open

variable {address : UInt16}

theorem of_same (hOpen : bus.Open address) (hSame : other.SameMemory bus) :
    other.Open address := by
  rw [Open, hSame.video]
  exact hOpen

/-- An open place shows the byte that was last on the bus. -/
theorem peek_eq (hOpen : bus.Open address) : bus.peek address = bus.latch := by
  have hRam : ¬address < 0x2000 := by grind
  rw [peek, if_neg hRam, if_neg (UInt16.not_lt.mpr hOpen.1), hOpen.2, Option.getD_none]

end Open

/-- A read has an effect on the picture unit only at its registers. -/
theorem ppu_drive (bus : Bus β) {address : UInt16}
    (hAddress : ¬(0x2000 ≤ address ∧ address < 0x4000)) : (bus.drive address).ppu = bus.ppu := by
  by_cases hRam : address < 0x2000
  · simp only [drive, if_pos hRam]
  · have hAbove : ¬address < 0x4000 := fun hLow => hAddress ⟨UInt16.not_lt.mp hRam, hLow⟩
    simp only [drive, if_neg hRam, if_neg hAbove]
    repeat' split
    all_goals rfl

/-- A read has an effect on the controllers only at their addresses. -/
theorem controllers_drive (bus : Bus β) {address : UInt16}
    (hAddress : ¬(address = firstPadAddress ∨ address = secondPadAddress)) :
    (bus.drive address).controllers = bus.controllers := by
  simp only [drive, if_neg hAddress]
  repeat' split
  all_goals rfl

theorem beam_drive (bus : Bus β) (address : UInt16) :
    (bus.drive address).ppu.beam = bus.ppu.beam := by
  simp only [drive]
  repeat' split
  all_goals first | rfl | exact Ppu.beam_read _ _ _

end Nes.Bus
