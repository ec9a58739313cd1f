import Nes.Cpu.AddressingMode
import Nes.Proofs.Bus.MemoryLaw
import Nes.Proofs.Bus.PictureMemory

/-! Blocks of bytes in the memory of the picture unit. A program points the address register at a
place, and each access to the data register moves on from there. Reads come one access late, since
the data register gives the byte that it fetched at the access before. -/

namespace Nes

open Cpu (highByte lowByte)

namespace Ppu

/-- The address that the data register reaches a number of accesses behind a position. -/
def placeBehind (start : Nat) (step : UInt16) (accesses : Nat) : UInt16 :=
  UInt16.ofNat ((start + accesses * step.toNat) % 0x4000)

/-- The addresses that the data register reaches in a number of accesses from a position on. -/
def blockPlaces (start : Nat) (step : UInt16) (count : Nat) : List UInt16 :=
  (List.range count).map (placeBehind start step)

/-- A block starts at the place that the position points to. -/
theorem placeBehind_zero (position : ScrollAddress) (step : UInt16) :
    placeBehind position.toNat step 0 = position.busAddress := by
  rw [placeBehind, Nat.zero_mul, Nat.add_zero, ScrollAddress.busAddress]

/-- The bus has fewer lines than the address register has bits, so it does not matter where that
one wraps around. -/
theorem placeBehind_succ (start : Nat) (step : UInt16) (accesses : Nat) :
    placeBehind start step (accesses + 1) =
      placeBehind ((start + step.toNat) % 0x8000) step accesses := by
  rw [placeBehind, placeBehind, Nat.succ_mul]
  refine congrArg UInt16.ofNat ?_
  omega

/-- The places of a block are the first one and those of the rest of the block. -/
theorem blockPlaces_succ (position : ScrollAddress) (step : UInt16) (count : Nat) :
    blockPlaces position.toNat step (count + 1) =
      position.busAddress :: blockPlaces (position.add step).toNat step count := by
  rw [blockPlaces, List.range_succ_eq_map, List.map_cons, placeBehind_zero, List.map_map,
    ScrollAddress.toNat_add]
  refine congrArg _ (List.map_congr_left fun accesses _ => ?_)
  exact placeBehind_succ position.toNat step accesses

theorem mem_blockPlaces_succ {start count : Nat} {step place : UInt16}
    (hPlace : place ∈ blockPlaces start step count) :
    place ∈ blockPlaces start step (count + 1) := by
  rw [blockPlaces, List.range_succ, List.map_append]
  exact List.mem_append_left _ hPlace

theorem length_blockPlaces (start : Nat) (step : UInt16) (count : Nat) :
    (blockPlaces start step count).length = count := by
  rw [blockPlaces, List.length_map, List.length_range]

namespace Scroll

/-- Two writes to the address register, the upper byte first, make up the position. The two highest
bits are left out. -/
theorem toNat_writeAddress (scroll : Scroll) (start : UInt16) :
    ((scroll.resetToggle.writeAddress (highByte start)).writeAddress
      (lowByte start)).current.toNat = start.toNat % 0x4000 := by
  have hCurrent (high low : UInt8) :
      ((scroll.resetToggle.writeAddress high).writeAddress low).current =
        .ofNat (0x100 * (high.toNat % 0x40) + low.toNat) := by
    have hLow := low.toNat_lt
    simp only [resetToggle, writeAddress, withLowByte, withHighByte, ScrollAddress.withNametable,
      ScrollAddress.ofNat, if_true, Bool.false_eq_true, if_false, ScrollAddress.mk.injEq,
      Fin.mk.injEq, Nat.testBit_eq_decide_div_mod_eq, decide_eq_decide]
    omega
  have hBits := start.toNat_lt
  rw [hCurrent, ScrollAddress.toNat_ofNat, highByte, lowByte, UInt8.toNat_ofNat',
    UInt8.toNat_ofNat']
  omega

end Scroll

section Data

variable (ppu : Ppu) (memory : UInt16 → UInt8)

/-- Reading a byte moves the position on by the increment of the control register. -/
theorem current_read_data : (ppu.read memory .data).scroll.current =
    ppu.scroll.current.add ppu.control.increment := by
  simp only [read]
  split <;> rfl

/-- Below the palette, a read of the data register gives the byte that was fetched before and
fetches the next one. -/
theorem read_data_below (hBelow : ppu.scroll.current.busAddress < 0x3f00) :
    (ppu.read memory .data).latch = ppu.readBuffer ∧
      (ppu.read memory .data).readBuffer = memory ppu.scroll.current.busAddress := by
  have hRead : ppu.read memory .data =
      { ppu with
        latch := ppu.readBuffer
        readBuffer := memory ppu.scroll.current.busAddress
        scroll := ppu.scroll.increment ppu.control.increment } := if_pos hBelow
  rw [hRead]
  exact ⟨rfl, rfl⟩

end Data

end Ppu

namespace Nrom

/-- A byte that the picture unit stores at the address is kept. Nametables always keep it, and
pattern memory does if it takes writes. -/
abbrev TakesStores (board : Nrom) (address : UInt16) : Prop :=
  0x2000 ≤ address ∨ board.memory.chrIsRam = true ∧ board.memory.chr.size ≠ 0

/-- Outside the palette, an address that takes stores is in a cell. -/
theorem samePictureCell_self {board : Nrom} {address : UInt16} (hBelow : address < 0x3f00)
    (hTakes : board.TakesStores address) : board.SamePictureCell address address := by
  by_cases hPattern : address < 0x2000
  · obtain ⟨hRam, -⟩ := hTakes.resolve_left (UInt16.not_le.mpr hPattern)
    exact .inl ⟨hPattern, hPattern, hRam, rfl⟩
  · have hTable := UInt16.not_lt.mp hPattern
    exact .inr (.inl ⟨⟨hTable, hBelow⟩, ⟨hTable, hBelow⟩, rfl, rfl⟩)

theorem samePictureCell_symm {board : Nrom} {stored found : UInt16}
    (hSame : board.SamePictureCell stored found) : board.SamePictureCell found stored := by
  obtain ⟨hStored, hFound, hRam, hCell⟩ | ⟨hStored, hFound, hPlace, hTable⟩ |
    ⟨hStored, hFound, hCell⟩ := hSame
  · exact .inl ⟨hFound, hStored, hRam, hCell.symm⟩
  · exact .inr (.inl ⟨hFound, hStored, hPlace.symm, hTable.symm⟩)
  · exact .inr (.inr ⟨hFound, hStored, hCell.symm⟩)

namespace SameWiring

variable {board other : Nrom}

theorem samePictureCell (hWiring : SameWiring board other) (stored found : UInt16) :
    board.SamePictureCell stored found ↔ other.SamePictureCell stored found := by
  simp only [SamePictureCell, hWiring.chrIsRam, hWiring.size, hWiring.mirroring]

theorem takesStores (hWiring : SameWiring board other) (address : UInt16) :
    board.TakesStores address ↔ other.TakesStores address := by
  simp only [TakesStores, hWiring.chrIsRam, hWiring.size]

end SameWiring

end Nrom

namespace VideoMemory

def writeAll (memory : VideoMemory Nrom) (stores : List (UInt16 × UInt8)) : VideoMemory Nrom :=
  stores.foldl (fun memory store => memory.write store.1 store.2) memory

/-- A write to video memory changes no wiring. -/
theorem sameWiring_write (memory : VideoMemory Nrom) (address : UInt16) (value : UInt8) :
    (memory.write address value).cartridge.board.SameWiring memory.cartridge.board := by
  simp only [write]
  split
  · exact .writeChr _ _ _
  · exact .refl _

section Stores

variable {memory : VideoMemory Nrom} {stored found : UInt16}

/-- A store outside the palette is kept, and all other cells keep their bytes. -/
theorem read_write_of_takes (hStored : stored < 0x3f00)
    (hTakes : memory.cartridge.board.TakesStores stored) (hFound : found < 0x3f00)
    (value : UInt8) : (memory.write stored value).read found =
      if memory.cartridge.board.SamePictureCell stored found then value
      else memory.read found := by
  have hChr (hPattern : stored < 0x2000) : memory.cartridge.board.memory.chr.size ≠ 0 :=
    (hTakes.resolve_left (UInt16.not_le.mpr hPattern)).2
  rw [read_write hChr hStored hFound, Nrom.pictureByte, if_pos hFound]

end Stores

/-- A byte stays if no store reaches its cell. -/
theorem read_writeAll_of_apart {memory : VideoMemory Nrom} {stores : List (UInt16 × UInt8)}
    {found : UInt16} (hFound : found < 0x3f00) (hBelow : ∀ store ∈ stores, store.1 < 0x3f00)
    (hTakes : ∀ store ∈ stores, memory.cartridge.board.TakesStores store.1)
    (hApart : ∀ store ∈ stores, ¬memory.cartridge.board.SamePictureCell store.1 found) :
    (memory.writeAll stores).read found = memory.read found := by
  induction stores generalizing memory with
  | nil => rfl
  | cons store stores ih =>
      rw [List.forall_mem_cons] at hBelow hTakes hApart
      have hWiring := memory.sameWiring_write store.1 store.2
      have hRest : ((memory.write store.1 store.2).writeAll stores).read found =
          (memory.write store.1 store.2).read found :=
        ih hBelow.2 (fun later hLater => (hWiring.takesStores _).mpr (hTakes.2 later hLater))
          fun later hLater => mt (hWiring.samePictureCell _ _).mp (hApart.2 later hLater)
      refine hRest.trans ?_
      rw [read_write_of_takes hBelow.1 hTakes.1 hFound, if_neg hApart.1]

/-- Bytes that are stored in different cells are all found again. -/
theorem read_writeAll {memory : VideoMemory Nrom} {stores : List (UInt16 × UInt8)}
    (hBelow : ∀ store ∈ stores, store.1 < 0x3f00)
    (hTakes : ∀ store ∈ stores, memory.cartridge.board.TakesStores store.1)
    (hApart : stores.Pairwise fun first second =>
      ¬memory.cartridge.board.SamePictureCell first.1 second.1) :
    ∀ store ∈ stores, (memory.writeAll stores).read store.1 = store.2 := by
  induction stores generalizing memory with
  | nil => exact fun _ hStore => nomatch hStore
  | cons store stores ih =>
      rw [List.forall_mem_cons] at hBelow hTakes ⊢
      rw [List.pairwise_cons] at hApart
      have hWiring := memory.sameWiring_write store.1 store.2
      have hLaterTakes : ∀ later ∈ stores,
          (memory.write store.1 store.2).cartridge.board.TakesStores later.1 :=
        fun later hLater => (hWiring.takesStores _).mpr (hTakes.2 later hLater)
      constructor
      · -- The later stores go elsewhere.
        have hElsewhere : ∀ later ∈ stores,
            ¬(memory.write store.1 store.2).cartridge.board.SamePictureCell later.1 store.1 :=
          fun later hLater hSame => hApart.1 later hLater
            (Nrom.samePictureCell_symm ((hWiring.samePictureCell _ _).mp hSame))
        refine (read_writeAll_of_apart hBelow.1 hBelow.2 hLaterTakes hElsewhere).trans ?_
        rw [read_write_of_takes hBelow.1 hTakes.1 hBelow.1,
          if_pos (Nrom.samePictureCell_self hBelow.1 hTakes.1)]
      · exact ih hBelow.2 hLaterTakes
          (hApart.2.imp fun hHere => mt (hWiring.samePictureCell _ _).mp hHere)

/-- A block of bytes is read back from its places, if each of these has a cell of its own. -/
theorem map_read_writeAll {memory : VideoMemory Nrom} {places : List UInt16} {bytes : List UInt8}
    (hLength : places.length = bytes.length) (hBelow : ∀ place ∈ places, place < 0x3f00)
    (hTakes : ∀ place ∈ places, memory.cartridge.board.TakesStores place)
    (hApart : places.Pairwise fun first second =>
      ¬memory.cartridge.board.SamePictureCell first second) :
    places.map (memory.writeAll (places.zip bytes)).read = bytes := by
  have hPlaces : (places.zip bytes).map Prod.fst = places :=
    List.map_fst_zip (Nat.le_of_eq hLength)
  have hBytes : (places.zip bytes).map Prod.snd = bytes :=
    List.map_snd_zip (Nat.le_of_eq hLength.symm)
  have hMember {store : UInt16 × UInt8} (hStore : store ∈ places.zip bytes) : store.1 ∈ places :=
    (List.of_mem_zip hStore).1
  have hFound := read_writeAll (fun store hStore => hBelow _ (hMember hStore))
    (fun store hStore => hTakes _ (hMember hStore))
    (List.pairwise_map.mp (hPlaces.symm ▸ hApart))
  calc places.map (memory.writeAll (places.zip bytes)).read
      = ((places.zip bytes).map Prod.fst).map (memory.writeAll (places.zip bytes)).read := by
        rw [hPlaces]
    _ = (places.zip bytes).map Prod.snd := by
        rw [List.map_map]
        exact List.map_congr_left hFound
    _ = bytes := hBytes

end VideoMemory

namespace Bus

open Ppu (blockPlaces)

/-- Addresses of the registers that move a block: the one that resets the address register, the
address register itself, and the one that reaches the memory behind it. -/
structure Ports where
  status : UInt16
  address : UInt16
  data : UInt16
  registerAt_status : registerAt? status = some .status
  registerAt_address : registerAt? address = some .address
  registerAt_data : registerAt? data = some .data

namespace Ports

def point (ports : Ports) (start : UInt16) : List Access :=
  [.read ports.status, .write ports.address (highByte start), .write ports.address (lowByte start)]

def store (ports : Ports) (bytes : List UInt8) : List Access :=
  bytes.map (.write ports.data)

def load (ports : Ports) (count : Nat) : List Access :=
  List.replicate count (.read ports.data)

end Ports

variable {β : Type}

/-- The addresses that the next accesses to the data register reach. -/
def placesAhead (bus : Bus β) (count : Nat) : List UInt16 :=
  blockPlaces bus.ppu.scroll.current.toNat bus.ppu.control.increment count

/-- The places ahead are the position and those ahead of it once it has moved on. -/
theorem placesAhead_succ {bus after : Bus β}
    (hCurrent : after.ppu.scroll.current = bus.ppu.scroll.current.add bus.ppu.control.increment)
    (hControl : after.ppu.control = bus.ppu.control) (count : Nat) :
    bus.placesAhead (count + 1) =
      bus.ppu.scroll.current.busAddress :: after.placesAhead count := by
  rw [placesAhead, Ppu.blockPlaces_succ, placesAhead, hCurrent, hControl]

theorem busAddress_mem_placesAhead (bus : Bus β) (count : Nat) :
    bus.ppu.scroll.current.busAddress ∈ bus.placesAhead (count + 1) := by
  rw [placesAhead, Ppu.blockPlaces_succ]
  exact List.mem_cons_self

section Board

variable [Board β] (bus : Bus β)

/-- A read of a register gives the byte that the picture unit leaves in its latch. -/
theorem read_register {address : UInt16} {register : Ppu.Register}
    (hRegister : registerAt? address = some register) :
    (bus.read address).1 = (bus.ppu.read bus.video.read register).latch ∧
      (bus.access (.read address)).ppu = bus.ppu.read bus.video.read register ∧
      (bus.access (.read address)).video = bus.video := by
  have hPpu := bus.ppu_access (.read address)
  rw [actionsOf, hRegister] at hPpu
  refine ⟨?_, hPpu, bus.video_drive address⟩
  rw [registerAt?] at hRegister
  split at hRegister
  · cases hRegister
  · rename_i hRam
    split at hRegister
    · rename_i hPicture
      rw [← Option.some.inj hRegister]
      simp only [Bus.read, drive, if_neg hRam, if_pos hPicture]
    · cases hRegister

/-- A write to a register goes to the picture unit, and to video memory if the register is for data.
-/
theorem write_register {address : UInt16} {register : Ppu.Register}
    (hRegister : registerAt? address = some register) (value : UInt8) :
    (bus.access (.write address value)).ppu = bus.ppu.write register value ∧
      (bus.access (.write address value)).video =
        storeVideo bus.video (bus.ppu.storeAddress? register) value := by
  have hPpu := bus.ppu_write address value
  have hVideo := bus.video_write address value
  rw [hRegister] at hPpu
  simp only [hRegister] at hVideo
  exact ⟨hPpu, hVideo⟩

variable {bus}

/-- The address register points at a place, whatever it and its toggle were before. The byte that
was fetched last stays. -/
theorem accessAll_point (bus : Bus β) (ports : Ports) {start : UInt16} (hStart : start < 0x4000) :
    let after := bus.accessAll (ports.point start)
    after.ppu.scroll.current.toNat = start.toNat ∧ after.ppu.control = bus.ppu.control ∧
      after.ppu.readBuffer = bus.ppu.readBuffer ∧ after.video = bus.video := by
  let reset := bus.access (.read ports.status)
  let half := reset.access (.write ports.address (highByte start))
  obtain ⟨-, hReset, hResetVideo⟩ := bus.read_register ports.registerAt_status
  obtain ⟨hHigh, hHighVideo⟩ := reset.write_register ports.registerAt_address (highByte start)
  obtain ⟨hLow, hLowVideo⟩ := half.write_register ports.registerAt_address (lowByte start)
  have hPpu : (bus.accessAll (ports.point start)).ppu =
      ((bus.ppu.read bus.video.read .status).write .address (highByte start)).write .address
        (lowByte start) := by
    rw [← hReset]
    exact hLow.trans (congrArg (Ppu.write · .address (lowByte start)) hHigh)
  -- Only the data register stores anything.
  have hVideo : (bus.accessAll (ports.point start)).video = bus.video :=
    hLowVideo.trans (hHighVideo.trans hResetVideo)
  simp only [hPpu]
  refine ⟨?_, rfl, rfl, hVideo⟩
  exact (bus.ppu.scroll.toNat_writeAddress start).trans (Nat.mod_eq_of_lt hStart)

section Data

variable {port : UInt16} (hPort : registerAt? port = some .data)

include hPort

/-- A read of the data register moves the address register on and stores nothing. -/
theorem read_data (bus : Bus β) :
    let after := bus.access (.read port)
    after.ppu.scroll.current = bus.ppu.scroll.current.add bus.ppu.control.increment ∧
      after.ppu.control = bus.ppu.control ∧ after.video = bus.video := by
  obtain ⟨-, hPpu, hVideo⟩ := bus.read_register hPort
  refine ⟨?_, ?_, hVideo⟩
  · rw [hPpu, Ppu.current_read_data]
  · rw [hPpu, Ppu.control_read]

/-- Below the palette, a read of the data register gives the byte that was fetched before and
fetches the next one. -/
theorem fst_read_data (hBelow : bus.ppu.scroll.current.busAddress < 0x3f00) :
    (bus.read port).1 = bus.ppu.readBuffer ∧ (bus.access (.read port)).ppu.readBuffer =
      bus.video.read bus.ppu.scroll.current.busAddress := by
  obtain ⟨hByte, hPpu, -⟩ := bus.read_register hPort
  rw [hByte, hPpu]
  exact bus.ppu.read_data_below bus.video.read hBelow

/-- A write to the data register stores its byte, moves the address register on and fetches
nothing. -/
theorem write_data (hBelow : bus.ppu.scroll.current.busAddress < 0x3f00) (value : UInt8) :
    let after := bus.access (.write port value)
    after.video = bus.video.write bus.ppu.scroll.current.busAddress value ∧
      after.ppu.scroll.current = bus.ppu.scroll.current.add bus.ppu.control.increment ∧
      after.ppu.control = bus.ppu.control ∧ after.ppu.readBuffer = bus.ppu.readBuffer := by
  obtain ⟨hPpu, hVideo⟩ := bus.write_register hPort value
  simp only [hPpu, hVideo, Ppu.write, Ppu.storeAddress?, Ppu.paletteStart, hBelow, and_self,
    if_true, storeVideo, Ppu.Scroll.increment]

/-- Reads of the data register give the byte that was fetched before them, and then those of the
places that they pass. -/
theorem transfers_load {count : Nat}
    (hBelow : ∀ place ∈ bus.placesAhead (count + 1), place < 0x3f00) :
    bus.transfers (List.replicate (count + 1) (.read port)) =
      bus.ppu.readBuffer :: (bus.placesAhead count).map bus.video.read := by
  induction count generalizing bus with
  | zero =>
      obtain ⟨hByte, -⟩ := fst_read_data hPort (hBelow _ (bus.busAddress_mem_placesAhead 0))
      rw [List.replicate_one, transfers, transferred, hByte]
      rfl
  | succ count ih =>
      obtain ⟨hCurrent, hControl, hVideo⟩ := read_data hPort bus
      rw [placesAhead_succ hCurrent hControl, List.forall_mem_cons] at hBelow
      obtain ⟨hByte, hBuffer⟩ := fst_read_data hPort hBelow.1
      rw [List.replicate_succ, transfers, transferred, hByte, ih hBelow.2,
        placesAhead_succ hCurrent hControl, List.map_cons, hBuffer, hVideo]

/-- Each read of the data register moves the address register on. -/
theorem current_load (bus : Bus β) (count : Nat) :
    (bus.accessAll (List.replicate count (.read port))).ppu.scroll.current.toNat =
      (bus.ppu.scroll.current.toNat + count * bus.ppu.control.increment.toNat) % 0x8000 := by
  induction count generalizing bus with
  | zero =>
      have hLt := bus.ppu.scroll.current.toNat_lt
      rw [Nat.zero_mul, Nat.add_zero, Nat.mod_eq_of_lt hLt]
      rfl
  | succ count ih =>
      obtain ⟨hCurrent, hControl, -⟩ := read_data hPort bus
      rw [List.replicate_succ, accessAll_cons, ih, hCurrent, hControl, Ppu.ScrollAddress.toNat_add,
        Nat.succ_mul]
      omega

end Data

end Board

section Block

variable {bus : Bus Nrom} {port : UInt16}

/-- Bytes that are written to the data register are stored one behind the other. -/
theorem accessAll_store (hPort : registerAt? port = some .data) {bytes : List UInt8}
    (hBelow : ∀ place ∈ bus.placesAhead bytes.length, place < 0x3f00) :
    let after := bus.accessAll (bytes.map (.write port))
    after.video = bus.video.writeAll ((bus.placesAhead bytes.length).zip bytes) ∧
      after.ppu.control = bus.ppu.control ∧ after.ppu.readBuffer = bus.ppu.readBuffer := by
  induction bytes generalizing bus with
  | nil => exact ⟨rfl, rfl, rfl⟩
  | cons byte bytes ih =>
      have hHere := hBelow _ (bus.busAddress_mem_placesAhead bytes.length)
      obtain ⟨hVideo, hCurrent, hControl, hBuffer⟩ := write_data hPort hHere byte
      rw [List.length_cons, placesAhead_succ hCurrent hControl] at hBelow ⊢
      rw [List.forall_mem_cons] at hBelow
      obtain ⟨hRest, hRestControl, hRestBuffer⟩ := ih hBelow.2
      rw [List.map_cons, accessAll_cons]
      refine ⟨?_, hRestControl.trans hControl, hRestBuffer.trans hBuffer⟩
      rw [hRest, hVideo]
      rfl

section Pointed

variable (ports : Ports) {start : UInt16} (hStart : start < 0x4000)

include hStart

theorem placesAhead_point (bus : Bus Nrom) (count : Nat) :
    (bus.accessAll (ports.point start)).placesAhead count =
      blockPlaces start.toNat bus.ppu.control.increment count := by
  obtain ⟨hCurrent, hControl, -⟩ := bus.accessAll_point ports hStart
  rw [placesAhead, hCurrent, hControl]

/-- A program that points the address register at a place and then writes bytes stores them from
that place on. -/
theorem accessAll_storeBlock {bytes : List UInt8} (hBelow : ∀ place ∈ blockPlaces start.toNat
      bus.ppu.control.increment bytes.length, place < 0x3f00) :
    let after := bus.accessAll (ports.point start ++ ports.store bytes)
    after.video = bus.video.writeAll
        ((blockPlaces start.toNat bus.ppu.control.increment bytes.length).zip bytes) ∧
      after.ppu.control = bus.ppu.control ∧ after.ppu.readBuffer = bus.ppu.readBuffer := by
  obtain ⟨-, hControl, hBuffer, hVideo⟩ := bus.accessAll_point ports hStart
  have hPlaces := placesAhead_point ports hStart bus bytes.length
  rw [← hPlaces] at hBelow ⊢
  obtain ⟨hStored, hStoredControl, hStoredBuffer⟩ :=
    accessAll_store ports.registerAt_data hBelow
  rw [accessAll_append]
  refine ⟨?_, hStoredControl.trans hControl, hStoredBuffer.trans hBuffer⟩
  rw [Ports.store, hStored, hVideo]

/-- A program that points the address register at a place and then reads gets the byte that was
fetched last, and then what is in the memory from that place on. -/
theorem transfers_loadBlock {count : Nat} (hBelow : ∀ place ∈ blockPlaces start.toNat
      bus.ppu.control.increment (count + 1), place < 0x3f00) :
    let pointed := bus.accessAll (ports.point start)
    pointed.transfers (ports.load (count + 1)) = bus.ppu.readBuffer ::
        (blockPlaces start.toNat bus.ppu.control.increment count).map bus.video.read ∧
      (pointed.accessAll (ports.load (count + 1))).ppu.scroll.current.toNat =
        (start.toNat + (count + 1) * bus.ppu.control.increment.toNat) % 0x8000 := by
  intro pointed
  obtain ⟨hCurrent, hControl, hBuffer, hVideo⟩ := bus.accessAll_point ports hStart
  have hPlaces := fun count => placesAhead_point ports hStart bus count
  rw [← hPlaces] at hBelow
  rw [← hPlaces, ← hBuffer, ← hVideo, ← hCurrent, ← hControl]
  exact ⟨transfers_load ports.registerAt_data hBelow,
    current_load ports.registerAt_data pointed (count + 1)⟩

end Pointed

/-- A block of bytes that is moved to the memory of the picture unit is read back. Whatever the
state was before, a program points the address register at a place, stores the bytes, points the
register at the same place again and reads once more than there are bytes. All places that are read
are below the palette, and those that are stored to take stores and have cells of their own. Then
the first read gives the byte that was fetched before all this, and the others give the block. The
address register ends where the reads have moved it. -/
theorem block_read_back (bus : Bus Nrom) (ports : Ports) (start : UInt16) (bytes : List UInt8)
    (hStart : start < 0x4000)
    (hBelow : ∀ place ∈ blockPlaces start.toNat bus.ppu.control.increment (bytes.length + 1),
      place < 0x3f00)
    (hTakes : ∀ place ∈ blockPlaces start.toNat bus.ppu.control.increment bytes.length,
      bus.video.cartridge.board.TakesStores place)
    (hApart : (blockPlaces start.toNat bus.ppu.control.increment bytes.length).Pairwise
      fun first second => ¬bus.video.cartridge.board.SamePictureCell first second) :
    let pointed := bus.accessAll (ports.point start ++ ports.store bytes ++ ports.point start)
    let loads := ports.load (bytes.length + 1)
    pointed.transfers loads = bus.ppu.readBuffer :: bytes ∧
      (pointed.accessAll loads).ppu.scroll.current.toNat =
        (start.toNat + (bytes.length + 1) * bus.ppu.control.increment.toNat) % 0x8000 := by
  intro pointed loads
  let stored := bus.accessAll (ports.point start ++ ports.store bytes)
  have hStoredBelow := fun place hPlace => hBelow place (Ppu.mem_blockPlaces_succ hPlace)
  obtain ⟨hVideo, hControl, hBuffer⟩ := accessAll_storeBlock ports hStart hStoredBelow
  have hPointed : pointed = stored.accessAll (ports.point start) := bus.accessAll_append _ _
  have hBlock := VideoMemory.map_read_writeAll (Ppu.length_blockPlaces _ _ _) hStoredBelow hTakes
    hApart
  rw [← hControl] at hBelow
  obtain ⟨hBytes, hEnd⟩ := transfers_loadBlock ports hStart hBelow
  rw [hControl] at hBytes hEnd
  rw [hPointed]
  refine ⟨hBytes.trans ?_, hEnd⟩
  rw [hBuffer, hVideo, hBlock]

end Block

/-- A bus whose address register waits for the second half of an address. Each access to the data
register moves that one down by a row of tiles. -/
def halfPointed : Bus Nrom where
  ppu := {
    control := ⟨0x04⟩
    scroll := { current := .ofNat 0x7abc, temporary := .ofNat 0x1234, firstWrite := false }
    readBuffer := 0x77 }
  video := { cartridge := { board := ⟨⟨#[], #[], #[1, 2, 3], true, .vertical⟩⟩ } }

/-- The registers at addresses far apart. -/
def scatteredPorts : Ports where
  status := 0x3ffa
  address := 0x200e
  data := 0x3fff
  registerAt_status := rfl
  registerAt_address := rfl
  registerAt_data := rfl

/-- A block of two bytes that starts in pattern memory and ends in a nametable. -/
theorem block_read_back_across :
    let board := halfPointed.video.cartridge.board
    let bytes : List UInt8 := [0xaa, 0xbb]
    let loads := scatteredPorts.load (bytes.length + 1)
    let pointed := halfPointed.accessAll (scatteredPorts.point 0x1ff0 ++
      scatteredPorts.store bytes ++ scatteredPorts.point 0x1ff0)
    (0x1ff0 : UInt16) < 0x4000 ∧ blockPlaces 0x1ff0 32 3 = [0x1ff0, 0x2010, 0x2030] ∧
      (∀ place ∈ blockPlaces 0x1ff0 32 3, place < 0x3f00) ∧
      (∀ place ∈ blockPlaces 0x1ff0 32 2, board.TakesStores place) ∧
      (blockPlaces 0x1ff0 32 2).Pairwise
        (fun first second => ¬board.SamePictureCell first second) ∧
      pointed.transfers loads = [0x77, 0xaa, 0xbb] ∧
      (pointed.accessAll loads).ppu.scroll.current.toNat = 0x2050 := by
  intro board bytes loads pointed
  have hRead : blockPlaces 0x1ff0 32 3 = [0x1ff0, 0x2010, 0x2030] := by decide
  have hStored : blockPlaces 0x1ff0 32 2 = [0x1ff0, 0x2010] := by decide
  have hBelow : ∀ place ∈ blockPlaces 0x1ff0 32 3, place < 0x3f00 := by
    rw [hRead]
    simp
  have hTakes : ∀ place ∈ blockPlaces 0x1ff0 32 2, board.TakesStores place := by
    have hFirst : board.TakesStores 0x1ff0 := by decide
    have hSecond : board.TakesStores 0x2010 := by decide
    rw [hStored]
    exact List.forall_mem_cons.mpr ⟨hFirst, List.forall_mem_singleton.mpr hSecond⟩
  have hApart : (blockPlaces 0x1ff0 32 2).Pairwise
      fun first second => ¬board.SamePictureCell first second := by
    rw [hStored, List.pairwise_pair]
    decide
  obtain ⟨hBytes, hEnd⟩ := block_read_back halfPointed scatteredPorts 0x1ff0 bytes (by decide)
    hBelow hTakes hApart
  refine ⟨by decide, hRead, hBelow, hTakes, hApart, hBytes, ?_⟩
  simp only [pointed, loads]
  exact hEnd.trans (by decide)

end Bus

end Nes
