import Nes.Proofs.Bus.Traffic
import Nes.Proofs.Cartridge.Dump
import Nes.Proofs.Cartridge.WorkRam

/-! What the processor finds in its address space. A cell of memory holds the byte that was written
to it last, and where nothing is stored there is the last byte on the bus. -/

namespace Nes.Bus

/-- Addresses of registers, and those at which no cartridge answers. Nothing is stored there. -/
abbrev Unstored (address : UInt16) : Prop :=
  0x2000 ≤ address ∧ address < 0x6000

/-- A byte that is written to the first address is found at the second one. The memory of the
console repeats, and that of the cartridge does not. -/
abbrev SameCell (stored found : UInt16) : Prop :=
  (stored < 0x2000 ∧ found < 0x2000 ∧ stored.toNat % 0x800 = found.toNat % 0x800) ∨
    (stored = found ∧ 0x6000 ≤ stored ∧ stored < 0x8000)

/-- Addresses of work memory, in the console or on the cartridge. -/
abbrev InWorkMemory (address : UInt16) : Prop :=
  address < 0x2000 ∨ (0x6000 ≤ address ∧ address < 0x8000)

/-- A read of these addresses asks the picture unit or a controller. -/
abbrev Asks (address : UInt16) : Prop :=
  (0x2000 ≤ address ∧ address < 0x4000) ∨ address = 0x4016 ∨ address = 0x4017

/-- What an access leaves in the cell at an address, given what was there before. -/
def Access.leaves (access : Access) (byte : UInt8) (address : UInt16) : UInt8 :=
  match access with
  | .read _ => byte
  | .write stored value => if SameCell stored address then value else byte

/-- What the last one of some accesses that writes to the cell at an address has left there. -/
def lastStored (before : UInt8) (accesses : List Access) (address : UInt16) : UInt8 :=
  accesses.foldl (fun byte access => access.leaves byte address) before

/-- The access writes to the cell at an address. -/
def Access.Touches (access : Access) (found : UInt16) : Prop :=
  match access with
  | .read _ => False
  | .write address _ => SameCell address found

/-- Two accesses do not write to the same cell. -/
def Apart (first second : Access) : Prop :=
  ∀ found, first.Touches found → ¬second.Touches found

section Board

variable {β : Type} [Board β]

/-- The byte that an access puts on the bus. -/
def transferred (bus : Bus β) : Access → UInt8
  | .read address => (bus.read address).1
  | .write _ value => value

def transfers : Bus β → List Access → List UInt8
  | _, [] => []
  | bus, access :: accesses =>
    bus.transferred access :: (bus.access access).transfers accesses

/-- Where neither the picture unit nor a controller is asked, a read puts the byte that looking
shows on the bus and has no other effect. -/
theorem drive_eq (bus : Bus β) {address : UInt16} (hAddress : ¬Asks address) :
    bus.drive address = { bus with latch := bus.peek address } := by
  obtain ⟨hPpu, hOther⟩ := not_or.mp hAddress
  have hPads : ¬(address = firstPadAddress ∨ address = secondPadAddress) := hOther
  by_cases hRam : address < 0x2000
  · simp only [drive, peek, if_pos hRam]
  · have hAbove : ¬address < 0x4000 := fun hLow => hPpu ⟨UInt16.not_lt.mp hRam, hLow⟩
    simp only [drive, peek, if_neg hRam, if_neg hAbove, if_neg hPads]
    split
    · rfl
    · cases Board.readPrg bus.video.cartridge.board address <;> rfl

/-- The byte that answers a read stays on the bus. -/
theorem latch_drive (bus : Bus β) {address : UInt16} (hAddress : ¬Asks address) :
    (bus.drive address).latch = bus.peek address := by
  rw [bus.drive_eq hAddress]

end Board

variable {bus : Bus Nrom}

/-- Of the board, a write changes no more than one byte of its work memory. -/
theorem readPrg_write (hLoaded : bus.video.cartridge.board.Loaded) (address found : UInt16)
    (value : UInt8) :
    Board.readPrg (bus.write address value).video.cartridge.board found =
      if 0x6000 ≤ address ∧ address < 0x8000 ∧ address = found then some value
      else Board.readPrg bus.video.cartridge.board found := by
  obtain ⟨hLow, hKept⟩ | ⟨hHigh, hWritten⟩ := bus.board_write address value
  · have hElsewhere : ¬(0x6000 ≤ address ∧ address < 0x8000 ∧ address = found) := by grind
    rw [if_neg hElsewhere]
    obtain hSame | ⟨store, hStored⟩ := hKept
    · rw [hSame]
    · rw [hStored, Nrom.readPrg_writeChr]
  · rw [hWritten, hLoaded.readPrg_writePrg]

theorem loaded_access (hLoaded : bus.video.cartridge.board.Loaded) (access : Access) :
    (bus.access access).video.cartridge.board.Loaded := by
  cases access with
  | read address =>
      rw [Bus.access, Bus.read, video_drive]
      exact hLoaded
  | write address value =>
      rw [Bus.access]
      obtain ⟨-, hSame | ⟨store, hStored⟩⟩ | ⟨-, hWritten⟩ := bus.board_write address value
      · rw [hSame]
        exact hLoaded
      · rw [hStored]
        exact hLoaded.storeChr store value
      · rw [hWritten]
        exact hLoaded.storePrg address value

/-- Where nothing is stored, the byte that was last on the bus is found. -/
theorem peek_of_unstored {found : UInt16} (hFound : Unstored found) :
    bus.peek found = bus.latch := by
  rw [peek, if_neg (UInt16.not_lt.mpr hFound.1), Nrom.readPrg_open _ hFound.2, Option.getD_none,
    ite_self]

/-- A loaded board answers everywhere from its work memory on. -/
theorem readPrg_eq_some (hLoaded : bus.video.cartridge.board.Loaded) {found : UInt16}
    (hFound : 0x6000 ≤ found) :
    Board.readPrg bus.video.cartridge.board found = some (bus.peek found) := by
  obtain ⟨byte, hByte⟩ := hLoaded.exists_readPrg hFound
  have hRam : ¬found < 0x2000 := by grind
  have hRegister : ¬found < 0x4020 := by grind
  rw [peek, if_neg hRam, if_neg hRegister, hByte, Option.getD_some]

/-- An access puts its byte on the bus, where it is found at all addresses that store nothing, and
it leaves what it writes in a cell. -/
theorem peek_access (hLoaded : bus.video.cartridge.board.Loaded) (access : Access)
    (found : UInt16) :
    (bus.access access).peek found =
      if Unstored found then bus.transferred access else access.leaves (bus.peek found) found := by
  by_cases hUnstored : Unstored found
  · rw [peek_of_unstored hUnstored, if_pos hUnstored]
    cases access with
    | read address => rfl
    | write address value => exact bus.latch_write address value
  rw [if_neg hUnstored]
  by_cases hRam : found < 0x2000
  · rw [peek, peek, if_pos hRam, if_pos hRam]
    cases access with
    | read address => rw [Bus.access, Bus.read, ram_drive, Access.leaves]
    | write address value =>
        rw [Bus.access, ram_write]
        have hSame : SameCell address found ↔
            address < 0x2000 ∧ (ramIndex address).val = (ramIndex found).val := by
          grind [ramIndex]
        simp only [Access.leaves, hSame]
        split
        · rename_i hStored
          simp only [Fin.getElem_fin, Vector.getElem_set, hStored, true_and]
        · rename_i hStored
          simp only [hStored, false_and, if_false]
  · have hBoard : 0x6000 ≤ found := by grind
    rw [← Option.some_inj, ← readPrg_eq_some (loaded_access hLoaded access) hBoard]
    cases access with
    | read address =>
        rw [Bus.access, Bus.read, video_drive, readPrg_eq_some hLoaded hBoard, Access.leaves]
    | write address value =>
        have hSame : SameCell address found ↔
            0x6000 ≤ address ∧ address < 0x8000 ∧ address = found := by
          grind
        rw [Bus.access, readPrg_write hLoaded, readPrg_eq_some hLoaded hBoard]
        simp only [Access.leaves, hSame]
        exact (apply_ite some _ _ _).symm

theorem loaded_accessAll (hLoaded : bus.video.cartridge.board.Loaded) (accesses : List Access) :
    (bus.accessAll accesses).video.cartridge.board.Loaded := by
  induction accesses generalizing bus with
  | nil => exact hLoaded
  | cons access accesses ih => exact ih (loaded_access hLoaded access)

/-- The byte at a place is the last one that was stored there. -/
theorem peek_accessAll (hLoaded : bus.video.cartridge.board.Loaded) (accesses : List Access)
    {found : UInt16} (hFound : ¬Unstored found) :
    (bus.accessAll accesses).peek found = lastStored (bus.peek found) accesses found := by
  induction accesses generalizing bus with
  | nil => rfl
  | cons access accesses ih =>
      rw [accessAll_cons, ih (loaded_access hLoaded access), peek_access hLoaded,
        if_neg hFound]
      rfl

/-- The law of the processor's memory, for the cartridge of any image that loads and whatever was
written to it before. A byte that is written is found at all addresses of its cell and at those that
store nothing; every other address keeps its byte. A read finds what is there, unless it asks the
picture unit or a controller, and changes no cell. So after any accesses a cell holds what was
written to it last, and an address that stores nothing shows the last byte on the bus. -/
theorem memory_law (bus : Bus Nrom) (hLoaded : bus.video.cartridge.board.Loaded) :
    (∀ address value found, (bus.write address value).peek found =
      if Unstored found ∨ SameCell address found then value else bus.peek found) ∧
    (∀ address, ¬Asks address → (bus.read address).1 = bus.peek address) ∧
    (∀ address found, (bus.read address).2.peek found =
      if Unstored found then (bus.read address).1 else bus.peek found) ∧
    ∀ accesses,
      (∀ found, ¬Unstored found →
        (bus.accessAll accesses).peek found = lastStored (bus.peek found) accesses found) ∧
      (∀ access found, Unstored found →
        (bus.accessAll (accesses ++ [access])).peek found =
          (bus.accessAll accesses).transferred access) ∧
      ∀ address, ¬Asks address →
        ((bus.accessAll accesses).read address).1 = (bus.accessAll accesses).peek address := by
  refine ⟨fun address value found => ?_, fun address hAddress => bus.latch_drive hAddress,
    fun address found => peek_access hLoaded (.read address) found, fun accesses =>
    ⟨fun found hFound => peek_accessAll hLoaded accesses hFound, fun access found hFound => ?_,
      fun address hAddress => latch_drive _ hAddress⟩⟩
  · refine (peek_access hLoaded (.write address value) found).trans ?_
    by_cases hUnstored : Unstored found
    · rw [if_pos hUnstored, if_pos (.inl hUnstored), transferred]
    · simp only [hUnstored, false_or, if_false, Access.leaves]
  · rw [accessAll_append]
    refine (peek_access (loaded_accessAll hLoaded accesses) access found).trans ?_
    rw [if_pos hFound]

/-- A bus with a cartridge whose work memory holds a trainer. -/
def trainedBus : Bus Nrom where
  video := { cartridge := Cartridge.trained.cartridge }

/-- A write to a mirror of work memory, to the trainer and to program memory. -/
theorem memory_law_trained :
    trainedBus.video.cartridge.board.Loaded ∧
    (trainedBus.write 0x0801 0x5a).peek 0x1801 = 0x5a ∧
    (trainedBus.write 0x71ff 0x5a).peek 0x71ff = 0x5a ∧
    (trainedBus.write 0x71ff 0x5a).peek 0x71fe = trainedBus.peek 0x71fe ∧
    (trainedBus.write 0x8000 0x5a).peek 0x8000 = trainedBus.peek 0x8000 ∧
    (trainedBus.write 0x2007 0x5a).peek 0x5fff = 0x5a ∧
    (trainedBus.read 0xffff).1 = trainedBus.peek 0xffff ∧
    (trainedBus.accessAll [.write 0x07ff 1, .write 0x1fff 2, .read 0x4016]).peek 0x0fff = 2 := by
  have hLoaded : trainedBus.video.cartridge.board.Loaded := .load
    (congrArg Prod.fst (Cartridge.trained.outcome_image #[] {}))
  obtain ⟨hWrite, hRead, -, hAll⟩ := memory_law trainedBus hLoaded
  refine ⟨hLoaded, hWrite _ _ _, hWrite _ _ _, hWrite _ _ _, hWrite _ _ _, hWrite _ _ _,
    hRead _ (by decide), (hAll _).1 _ (by decide)⟩

end Nes.Bus
