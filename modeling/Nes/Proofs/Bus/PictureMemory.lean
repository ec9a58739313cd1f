import Nes.Proofs.Bus.Events
import Nes.Proofs.Cartridge.Nrom

/-! What the picture unit finds in its address space. Pattern tables, nametables and the palette
each repeat in their own way, and a store through the data register is found at all addresses of its
cell. Nothing else changes them. -/

namespace Nes

namespace Mirroring

/-- The number of the table that four nametables share, or of the one that each has for itself. Two
nametables with one number are the same table. -/
def sharedTable (mirroring : Mirroring) (logical : Nat) : Nat :=
  match mirroring with
  | horizontal => logical / 2
  | vertical => logical % 2
  | singleScreenLower | singleScreenUpper => 0
  | fourScreen => logical

end Mirroring

/-- Two addresses of nametables share a byte if the mirroring lays their tables on each other. -/
theorem nametableOffset_eq_iff (mirroring : Mirroring) (stored found : UInt16) :
    nametableOffset mirroring stored = nametableOffset mirroring found ↔
      stored.toNat % 0x400 = found.toNat % 0x400 ∧
        mirroring.sharedTable (stored.toNat / 0x400 % 4) =
          mirroring.sharedTable (found.toNat / 0x400 % 4) := by
  rw [Fin.ext_iff]
  simp only [nametableOffset]
  cases mirroring with
  | singleScreenLower | singleScreenUpper =>
      simp only [Mirroring.table, Mirroring.sharedTable, Nat.add_left_cancel_iff, and_true]
  | _ =>
      simp only [Mirroring.table, Mirroring.sharedTable]
      omega

/-- Without four screens the nametables are in the memory of the console. -/
theorem nametableOffset_lt {mirroring : Mirroring} (hScreens : mirroring ≠ .fourScreen)
    (address : UInt16) : (nametableOffset mirroring address).val < 2048 := by
  cases mirroring with
  | fourScreen => exact absurd rfl hScreens
  | _ =>
      simp only [nametableOffset, Mirroring.table]
      omega

namespace Ppu

namespace Palette

/-- The place of an address in the palette, where the first colour of each sprite palette is that of
the background palette across from it. -/
def folded (address : UInt16) : Nat :=
  let place := address.toNat % 32
  if place ∈ [0x10, 0x14, 0x18, 0x1c] then place - 0x10 else place

theorem val_index (address : UInt16) : (index address).val = folded address := by
  simp only [index, folded]
  grind

/-- Two addresses share a colour if they fold to the same number. -/
theorem index_eq_iff (stored found : UInt16) :
    index stored = index found ↔ folded stored = folded found := by
  rw [Fin.ext_iff, val_index, val_index]

/-- All colours have six bits. -/
def InRange (palette : Palette) : Prop :=
  ∀ cell : Fin 32, palette.colours[cell] < 0x40

/-- Only colours of six bits are stored. -/
theorem InRange.write {palette : Palette} (hRange : palette.InRange) (address : UInt16)
    (value : UInt8) : (palette.write address value).InRange := by
  intro cell
  have hMasked : value &&& 0x3f < 0x40 := by
    rw [UInt8.lt_iff_toNat_lt, UInt8.toNat_and]
    exact Nat.lt_of_le_of_lt Nat.and_le_right (by decide)
  simp only [Palette.write, Fin.getElem_fin, Vector.getElem_set]
  split
  · exact hMasked
  · exact hRange cell

end Palette

theorem palette_read (ppu : Ppu) (memory : UInt16 → UInt8) (register : Register) :
    (ppu.read memory register).palette = ppu.palette := by
  cases register <;> simp only [read]
  split <;> rfl

theorem oam_read (ppu : Ppu) (memory : UInt16 → UInt8) (register : Register) :
    (ppu.read memory register).oam = ppu.oam := by
  cases register <;> simp only [read]
  split <;> rfl

/-- Only a data write behind the start of the palette changes a colour. -/
theorem palette_write (ppu : Ppu) (register : Register) (value : UInt8) :
    (ppu.write register value).palette =
      if register = .data ∧ paletteStart ≤ ppu.scroll.current.busAddress then
        ppu.palette.write ppu.scroll.current.busAddress value
      else ppu.palette := by
  cases register with
  | data =>
      simp only [write, true_and]
      split
      · rename_i hBelow
        rw [if_neg (UInt16.not_le.mpr hBelow)]
      · rename_i hAbove
        rw [if_pos (UInt16.not_lt.mp hAbove)]
  | _ => rfl

/-- No dot changes a colour. -/
theorem palette_run (ppu : Ppu) (memory : UInt16 → UInt8) (dots : Nat) :
    (ppu.run memory dots).palette = ppu.palette := by
  induction dots generalizing ppu with
  | zero => rfl
  | succ dots ih => rw [run_succ, ih, palette_tick]

end Ppu

namespace Nrom

/-- A byte that the picture unit stores at the first address is found at the second one. -/
abbrev SamePictureCell (board : Nrom) (stored found : UInt16) : Prop :=
  (stored < 0x2000 ∧ found < 0x2000 ∧ board.memory.chrIsRam = true ∧
      stored.toNat % board.memory.chr.size = found.toNat % board.memory.chr.size) ∨
    ((0x2000 ≤ stored ∧ stored < 0x3f00) ∧ (0x2000 ≤ found ∧ found < 0x3f00) ∧
      stored.toNat % 0x400 = found.toNat % 0x400 ∧
      board.memory.mirroring.sharedTable (stored.toNat / 0x400 % 4) =
        board.memory.mirroring.sharedTable (found.toNat / 0x400 % 4)) ∨
    (0x3f00 ≤ stored ∧ 0x3f00 ≤ found ∧ Ppu.Palette.folded stored = Ppu.Palette.folded found)

/-- What a store of a byte at an address leaves at another address, given what was there before.
Colours have six bits. -/
def pictureByte (board : Nrom) (found : UInt16) (before : UInt8) (store : UInt16 × UInt8) : UInt8 :=
  if board.SamePictureCell store.1 found then
    if found < 0x3f00 then store.2 else store.2 &&& 0x3f
  else before

/-- A store in the palette does not reach the memory outside, and the other way round. -/
theorem pictureByte_apart (board : Nrom) {stored found : UInt16}
    (hApart : stored < 0x3f00 ↔ 0x3f00 ≤ found) (before value : UInt8) :
    board.pictureByte found before (stored, value) = before := by
  rw [pictureByte, if_neg]
  grind

/-- A store in the palette changes the colours that fold to its cell. -/
theorem pictureByte_palette (board : Nrom) {stored found : UInt16} (hStored : 0x3f00 ≤ stored)
    (hFound : 0x3f00 ≤ found) (before value : UInt8) :
    board.pictureByte found before (stored, value) =
      if Ppu.Palette.folded stored = Ppu.Palette.folded found then value &&& 0x3f else before := by
  have hPattern : ¬stored < 0x2000 := by grind
  have hTables : ¬stored < 0x3f00 := UInt16.not_lt.mpr hStored
  simp only [pictureByte, SamePictureCell, hPattern, hTables, false_and, and_false, false_or,
    hStored, hFound, true_and, if_neg (UInt16.not_lt.mpr hFound)]

/-- Two boards have pattern memory of one kind and size, and wire the nametables in one way. -/
structure SameWiring (board other : Nrom) : Prop where
  chrIsRam : board.memory.chrIsRam = other.memory.chrIsRam
  size : board.memory.chr.size = other.memory.chr.size
  mirroring : board.memory.mirroring = other.memory.mirroring

namespace SameWiring

variable {board other third : Nrom}

theorem refl (board : Nrom) : SameWiring board board :=
  ⟨rfl, rfl, rfl⟩

theorem trans (hFirst : SameWiring board other) (hSecond : SameWiring other third) :
    SameWiring board third :=
  ⟨hFirst.chrIsRam.trans hSecond.chrIsRam, hFirst.size.trans hSecond.size,
    hFirst.mirroring.trans hSecond.mirroring⟩

/-- Boards with the same wiring keep the same bytes. -/
theorem pictureByte (hWiring : SameWiring board other) : board.pictureByte = other.pictureByte := by
  funext found before store
  simp only [Nrom.pictureByte, SamePictureCell, hWiring.chrIsRam, hWiring.size, hWiring.mirroring]

theorem writePrg (board : Nrom) (address : UInt16) (value : UInt8) :
    SameWiring (Board.writePrg board address value) board := by
  obtain ⟨prgRam, hWritten⟩ := board.exists_writePrg address value
  rw [hWritten]
  exact ⟨rfl, rfl, rfl⟩

theorem writeChr (board : Nrom) (address : UInt16) (value : UInt8) :
    SameWiring (Board.writeChr board address value) board := by
  simp only [Board.writeChr, Nrom.writeChr]
  split
  · exact ⟨rfl, Array.size_setIfInBounds, rfl⟩
  · exact refl board

end SameWiring

theorem readChr_writePrg (board : Nrom) (address other : UInt16) (value : UInt8) :
    Board.readChr (Board.writePrg board address value) other = Board.readChr board other := by
  obtain ⟨prgRam, hWritten⟩ := board.exists_writePrg address value
  rw [hWritten]
  rfl

end Nrom

namespace VideoMemory

theorem addressOf_eq_self {address : UInt16} (hAddress : address < 0x4000) :
    addressOf address = address := by
  have hMod : address.toNat % 0x4000 = address.toNat := Nat.mod_eq_of_lt hAddress
  rw [addressOf, hMod, UInt16.ofNat_toNat]

/-- Below the nametables the board answers. -/
theorem read_pattern {β : Type} [Board β] (memory : VideoMemory β) {found : UInt16}
    (hFound : found < 0x2000) :
    memory.read found = Board.readChr memory.cartridge.board found := by
  simp only [read, addressOf_eq_self (show found < 0x4000 by grind), if_pos hFound]

/-- Above the pattern tables the nametables answer, as the board wires them. -/
theorem read_nametable {β : Type} [Board β] (memory : VideoMemory β) {found : UInt16}
    (hLow : 0x2000 ≤ found) (hHigh : found < 0x4000) :
    memory.read found =
      memory.nametables[nametableOffset (Board.mirroring memory.cartridge.board) found] := by
  simp only [read, addressOf_eq_self hHigh, if_neg (UInt16.not_lt.mpr hLow)]

section Stores

variable {memory : VideoMemory Nrom} {stored found : UInt16}

/-- A store in pattern memory changes the bytes of its cell, if the board has memory there. -/
theorem read_write_pattern (hChr : memory.cartridge.board.memory.chr.size ≠ 0)
    (hStored : stored < 0x2000) (hFound : found < 0x4000) (value : UInt8) :
    (memory.write stored value).read found =
      if found < 0x2000 ∧ memory.cartridge.board.memory.chrIsRam = true ∧
          stored.toNat % memory.cartridge.board.memory.chr.size =
            found.toNat % memory.cartridge.board.memory.chr.size then value
      else memory.read found := by
  have hRange : stored < 0x4000 := by grind
  simp only [write, addressOf_eq_self hRange, if_pos hStored]
  by_cases hPattern : found < 0x2000
  · have hMod {address : UInt16} (hAddress : address < 0x2000) :
        address.toNat % 0x2000 = address.toNat := Nat.mod_eq_of_lt hAddress
    rw [read_pattern _ hPattern, read_pattern _ hPattern,
      Nrom.readChr_writeChr (Nat.pos_of_ne_zero hChr), hMod hStored, hMod hPattern]
    simp only [hPattern, true_and]
  · have hWired := (Nrom.SameWiring.writeChr memory.cartridge.board stored value).mirroring
    have hTable := UInt16.not_lt.mp hPattern
    rw [if_neg fun hSame => hPattern hSame.1, read_nametable _ hTable hFound,
      read_nametable _ hTable hFound]
    simp only [Board.mirroring, hWired]

/-- A store in a nametable changes the bytes of its cell. -/
theorem read_write_nametable (hStored : 0x2000 ≤ stored) (hRange : stored < 0x4000)
    (hFound : found < 0x4000) (value : UInt8) :
    (memory.write stored value).read found =
      if 0x2000 ≤ found ∧ nametableOffset memory.cartridge.board.memory.mirroring stored =
          nametableOffset memory.cartridge.board.memory.mirroring found then value
      else memory.read found := by
  simp only [write, addressOf_eq_self hRange, if_neg (UInt16.not_lt.mpr hStored)]
  by_cases hTable : 0x2000 ≤ found
  · rw [read_nametable _ hTable hFound, read_nametable _ hTable hFound]
    simp only [Fin.getElem_fin, Vector.getElem_set, ← Fin.ext_iff, hTable, true_and]
    rfl
  · have hPattern := UInt16.not_le.mp hTable
    rw [if_neg fun hSame => hTable hSame.1, read_pattern _ hPattern, read_pattern _ hPattern]

/-- A byte that is stored outside the palette is found at all addresses of its cell, and all others
keep theirs. -/
theorem read_write (hChr : stored < 0x2000 → memory.cartridge.board.memory.chr.size ≠ 0)
    (hStored : stored < 0x3f00) (hFound : found < 0x3f00) (value : UInt8) :
    (memory.write stored value).read found =
      memory.cartridge.board.pictureByte found (memory.read found) (stored, value) := by
  have hPalette : ¬0x3f00 ≤ stored := UInt16.not_le.mpr hStored
  simp only [Nrom.pictureByte, Nrom.SamePictureCell, hPalette, false_and, or_false, if_pos hFound]
  by_cases hPattern : stored < 0x2000
  · have hTable : ¬0x2000 ≤ stored := UInt16.not_le.mpr hPattern
    rw [read_write_pattern (hChr hPattern) hPattern (by grind)]
    simp only [hPattern, hTable, true_and, false_and, or_false]
  · have hTable := UInt16.not_lt.mp hPattern
    rw [read_write_nametable hTable (by grind) (by grind)]
    simp only [nametableOffset_eq_iff, hPattern, hTable, hStored, hFound, true_and, false_and,
      false_or, and_true]

end Stores

/-- No write of the processor changes video memory. -/
theorem read_writePrg (memory : VideoMemory Nrom) (address found : UInt16) (value : UInt8) :
    { memory with cartridge.board :=
        Board.writePrg memory.cartridge.board address value }.read found = memory.read found := by
  have hWired := (Nrom.SameWiring.writePrg memory.cartridge.board address value).mirroring
  simp only [read, Nrom.readChr_writePrg, Board.mirroring, hWired]

end VideoMemory

namespace Bus

/-- What the data register would reach at an address: the memory of the picture unit, and the
palette above it. -/
def content (bus : Bus Nrom) (address : UInt16) : UInt8 :=
  if address < Ppu.paletteStart then bus.video.read address else bus.ppu.palette.colour address

/-- The byte that an event writes through the data register of the picture unit, if it does. -/
def Event.dataWrite? : Event → Option UInt8
  | .access (.write address value) => if registerAt? address = some .data then some value else none
  | _ => none

section Board

variable {β : Type} [Board β] (bus : Bus β)

/-- The store that an event makes in the memory of the picture unit. It goes where the address
register of the unit stands. -/
def pictureStore? (event : Event) : Option (UInt16 × UInt8) :=
  event.dataWrite?.map fun value => (bus.ppu.scroll.current.busAddress, value)

def pictureStores : Bus β → List Event → List (UInt16 × UInt8)
  | _, [] => []
  | bus, event :: events =>
    (bus.pictureStore? event).toList ++ (bus.happen event).pictureStores events

theorem palette_read (address : UInt16) : (bus.read address).2.ppu.palette = bus.ppu.palette := by
  rw [show (bus.read address).2 = bus.access (.read address) from rfl, ppu_access, actionsOf]
  cases registerAt? address with
  | none => rfl
  | some register => exact Ppu.palette_read _ _ _

theorem oam_read (address : UInt16) : (bus.read address).2.ppu.oam = bus.ppu.oam := by
  rw [show (bus.read address).2 = bus.access (.read address) from rfl, ppu_access, actionsOf]
  cases registerAt? address with
  | none => rfl
  | some register => exact Ppu.oam_read _ _ _

/-- A write of the processor reaches the picture unit through its registers only. -/
theorem ppu_write (address : UInt16) (value : UInt8) :
    (bus.write address value).ppu =
      match registerAt? address with
      | some register => bus.ppu.write register value
      | none => bus.ppu := by
  rw [show bus.write address value = bus.access (.write address value) from rfl, ppu_access,
    actionsOf]
  cases registerAt? address <;> rfl

/-- A write reaches the memory of the picture unit through a register, and the board directly. -/
theorem video_write (address : UInt16) (value : UInt8) :
    match registerAt? address with
    | some register => (bus.write address value).video =
        storeVideo bus.video (bus.ppu.storeAddress? register) value
    | none => (bus.write address value).video = bus.video ∨
        (bus.write address value).video = { bus.video with
          cartridge.board := Board.writePrg bus.video.cartridge.board address value } := by
  by_cases hRam : address < 0x2000
  · simp only [registerAt?, write, if_pos hRam, true_or]
  · by_cases hPpu : address < 0x4000
    · simp only [registerAt?, write, if_neg hRam, if_pos hPpu]
    · simp only [registerAt?, write, if_neg hRam, if_neg hPpu]
      repeat' split
      · exact .inl rfl
      · exact .inl rfl
      · exact .inl rfl
      · exact .inr rfl

end Board

variable {bus : Bus Nrom}

/-- Picture memory consists of video memory and of the palette. -/
theorem content_congr {other : Bus Nrom} {found : UInt16}
    (hVideo : other.video.read found = bus.video.read found)
    (hPalette : other.ppu.palette = bus.ppu.palette) : other.content found = bus.content found := by
  rw [content, content, hVideo, hPalette]

/-- The data register stores a byte where the address register stands. -/
theorem content_write_data (hChr : bus.video.cartridge.board.memory.chr.size ≠ 0)
    {address : UInt16} (hData : registerAt? address = some .data) (value : UInt8)
    (found : UInt16) :
    (bus.write address value).content found =
      bus.video.cartridge.board.pictureByte found (bus.content found)
        (bus.ppu.scroll.current.busAddress, value) := by
  have hPpu := bus.ppu_write address value
  have hVideo := bus.video_write address value
  rw [hData] at hPpu
  simp only [hData, Ppu.storeAddress?, true_and] at hVideo
  have hPalette := (congrArg Ppu.palette hPpu).trans (Ppu.palette_write _ _ _)
  simp only [true_and] at hPalette
  by_cases hBelow : bus.ppu.scroll.current.busAddress < Ppu.paletteStart
  · rw [if_pos hBelow] at hVideo
    rw [if_neg (UInt16.not_le.mpr hBelow)] at hPalette
    by_cases hFound : found < Ppu.paletteStart
    · rw [content, content, if_pos hFound, if_pos hFound, hVideo]
      exact VideoMemory.read_write (fun _ => hChr) hBelow hFound value
    · rw [Nrom.pictureByte_apart _ (iff_of_true hBelow (UInt16.not_lt.mp hFound)), content,
        content, if_neg hFound, if_neg hFound, hPalette]
  · rw [if_neg hBelow] at hVideo
    rw [if_pos (UInt16.not_lt.mp hBelow)] at hPalette
    by_cases hFound : found < Ppu.paletteStart
    · rw [Nrom.pictureByte_apart _ (iff_of_false hBelow (UInt16.not_le.mpr hFound)), content,
        content, if_pos hFound, if_pos hFound, hVideo]
      rfl
    · rw [Nrom.pictureByte_palette _ (UInt16.not_lt.mp hBelow) (UInt16.not_lt.mp hFound),
        content, content, if_neg hFound, if_neg hFound, hPalette, Ppu.Palette.colour_write]
      simp only [Ppu.Palette.index_eq_iff]

/-- Writes to other registers and elsewhere change nothing that the data register would reach. -/
theorem content_write_other {address : UInt16} (hOther : registerAt? address ≠ some .data)
    (value : UInt8) (found : UInt16) :
    (bus.write address value).content found = bus.content found := by
  have hPpu := bus.ppu_write address value
  have hVideo := bus.video_write address value
  cases hRegister : registerAt? address with
  | none =>
      rw [hRegister] at hPpu hVideo
      refine content_congr ?_ (congrArg Ppu.palette hPpu)
      obtain hVideo | hVideo := hVideo
      · rw [hVideo]
      · rw [hVideo, VideoMemory.read_writePrg]
  | some register =>
      have hData : register ≠ .data := by
        rintro rfl
        exact hOther hRegister
      rw [hRegister] at hPpu
      simp only [hRegister, Ppu.storeAddress?, hData, false_and, if_false] at hVideo
      have hPalette := (congrArg Ppu.palette hPpu).trans (Ppu.palette_write _ _ _)
      rw [if_neg fun hStore => hData hStore.1] at hPalette
      exact content_congr (congrArg (·.read found) hVideo) hPalette

/-- No event changes the wiring. -/
theorem sameWiring_happen (bus : Bus Nrom) (event : Event) :
    (bus.happen event).video.cartridge.board.SameWiring bus.video.cartridge.board := by
  cases event with
  | access access =>
      cases access with
      | read address =>
          rw [happen, Bus.access, Bus.read, video_drive]
          exact .refl _
      | write address value =>
          rw [happen, Bus.access]
          obtain ⟨-, hSame | ⟨store, hStored⟩⟩ | ⟨-, hWritten⟩ := bus.board_write address value
          · rw [hSame]
            exact .refl _
          · rw [hStored]
            exact .writeChr _ store value
          · rw [hWritten]
            exact .writePrg _ address value
  | plug source => exact .refl _
  | dot => exact .refl _

theorem content_runPpu (bus : Bus Nrom) (dots : Nat) (found : UInt16) :
    (bus.runPpu dots).content found = bus.content found :=
  content_congr rfl (Ppu.palette_run _ _ dots)

/-- An event changes what is found by the store that it makes, and no more. -/
theorem content_happen (hChr : bus.video.cartridge.board.memory.chr.size ≠ 0) (event : Event)
    (found : UInt16) :
    (bus.happen event).content found =
      (bus.pictureStore? event).toList.foldl (bus.video.cartridge.board.pictureByte found)
        (bus.content found) := by
  cases event with
  | access access =>
      cases access with
      | read address =>
          exact content_congr (congrArg (·.read found) (bus.video_drive address))
            (bus.palette_read address)
      | write address value =>
          rw [happen, Bus.access, pictureStore?, Event.dataWrite?]
          split
          · rename_i hData
            exact content_write_data hChr hData value found
          · rename_i hOther
            exact content_write_other hOther value found
  | plug source => rfl
  | dot => exact content_runPpu bus 1 found

/-- A byte of picture memory is what the data writes to its cell have made of it. -/
theorem content_happenAll (hChr : bus.video.cartridge.board.memory.chr.size ≠ 0)
    (events : List Event) (found : UInt16) :
    (bus.happenAll events).content found =
      (bus.pictureStores events).foldl (bus.video.cartridge.board.pictureByte found)
        (bus.content found) := by
  induction events generalizing bus with
  | nil => rfl
  | cons event events ih =>
      have hWiring := sameWiring_happen bus event
      have hNext : (bus.happen event).video.cartridge.board.memory.chr.size ≠ 0 := by
        rw [hWiring.size]
        exact hChr
      rw [happenAll_cons, ih hNext, hWiring.pictureByte, content_happen hChr, pictureStores,
        List.foldl_append]

/-- Without data writes nothing is stored. -/
theorem pictureStores_eq_nil {events : List Event}
    (hEvents : ∀ event ∈ events, event.dataWrite? = none) : bus.pictureStores events = [] := by
  induction events generalizing bus with
  | nil => rfl
  | cons event events ih =>
      obtain ⟨hEvent, hRest⟩ := List.forall_mem_cons.mp hEvents
      rw [pictureStores, ih hRest, pictureStore?, hEvent]
      rfl

/-- Colours have six bits at all times. -/
theorem inRange_happen (bus : Bus Nrom) (event : Event) (hRange : bus.ppu.palette.InRange) :
    (bus.happen event).ppu.palette.InRange := by
  cases event with
  | access access =>
      cases access with
      | read address =>
          rw [happen, Bus.access, palette_read]
          exact hRange
      | write address value =>
          rw [happen, Bus.access, ppu_write]
          cases registerAt? address with
          | none => exact hRange
          | some register =>
              rw [Ppu.palette_write]
              split
              · exact hRange.write _ value
              · exact hRange
  | plug source => exact hRange
  | dot =>
      rw [happen, runPpu, Ppu.palette_run]
      exact hRange

/-- The upper half of nametable memory is there for boards with four screens, and no event changes
it on others. -/
theorem nametables_happen (hScreens : bus.video.cartridge.board.memory.mirroring ≠ .fourScreen)
    (event : Event) {cell : Fin 4096} (hCell : 2048 ≤ cell.val) :
    (bus.happen event).video.nametables[cell] = bus.video.nametables[cell] := by
  cases event with
  | access access =>
      cases access with
      | read address => rw [happen, Bus.access, Bus.read, video_drive]
      | write address value =>
          rw [happen, Bus.access]
          have hVideo := bus.video_write address value
          cases hRegister : registerAt? address with
          | none =>
              rw [hRegister] at hVideo
              obtain hVideo | hVideo := hVideo <;> rw [hVideo]
          | some register =>
              simp only [hRegister] at hVideo
              rw [hVideo]
              cases bus.ppu.storeAddress? register with
              | none => rfl
              | some stored =>
                  have hBelow := nametableOffset_lt hScreens (VideoMemory.addressOf stored)
                  simp only [storeVideo, VideoMemory.write]
                  split
                  · rfl
                  · simp only [Fin.getElem_fin]
                    rw [Vector.getElem_set_ne]
                    exact Nat.ne_of_lt (Nat.lt_of_lt_of_le hBelow hCell)
  | plug source => rfl
  | dot => rfl

/-- The law of the picture unit's memory, for any state and any board with pattern memory. A byte
that is written through the data register is found at all addresses of its cell, and every other
address keeps its byte. So after any events an address holds what was stored in its cell last, and
events that do not write through the data register change nothing, however many dots they are.
Colours keep six bits, and the upper half of nametable memory changes only with four screens. -/
theorem picture_memory_law (bus : Bus Nrom)
    (hChr : bus.video.cartridge.board.memory.chr.size ≠ 0) :
    let board := bus.video.cartridge.board
    (∀ port value found, registerAt? port = some .data →
      (bus.write port value).content found =
        if board.SamePictureCell bus.ppu.scroll.current.busAddress found then
          if found < 0x3f00 then value else value &&& 0x3f
        else bus.content found) ∧
    (∀ events found, (∀ event ∈ events, event.dataWrite? = none) →
      (bus.happenAll events).content found = bus.content found) ∧
    (∀ dots found, (bus.runPpu dots).content found = bus.content found) ∧
    (∀ events found, (bus.happenAll events).content found =
      (bus.pictureStores events).foldl (board.pictureByte found) (bus.content found)) ∧
    (bus.ppu.palette.InRange → ∀ events, (bus.happenAll events).ppu.palette.InRange) ∧
    (board.memory.mirroring ≠ .fourScreen → ∀ events (cell : Fin 4096), 2048 ≤ cell.val →
      (bus.happenAll events).video.nametables[cell] = bus.video.nametables[cell]) := by
  intro board
  refine ⟨fun port value found hPort => ?_, fun events found hEvents => ?_,
    content_runPpu bus, content_happenAll hChr, fun hRange events => ?_,
    fun hScreens events cell hCell => ?_⟩
  · exact content_write_data hChr hPort value found
  · rw [content_happenAll hChr, pictureStores_eq_nil hEvents]
    rfl
  · exact happenAll_induction inRange_happen hRange events
  · -- The board keeps its wiring, so each event again leaves the upper half alone.
    refine (happenAll_induction (p := fun now =>
      now.video.cartridge.board.SameWiring board ∧
        now.video.nametables[cell] = bus.video.nametables[cell]) ?_ ⟨.refl _, rfl⟩ events).2
    rintro now event ⟨hWiring, hKept⟩
    refine ⟨(sameWiring_happen now event).trans hWiring, ?_⟩
    rw [nametables_happen (by rw [hWiring.mirroring]; exact hScreens) event hCell, hKept]

/-- A bus with little pattern memory, in the middle of the lower right nametable. -/
def tableBus : Bus Nrom where
  ppu := { scroll.current := .ofNat 0x2c05 }
  video := { cartridge := { board := ⟨⟨#[], #[], #[1, 2, 3], true, .vertical⟩⟩ } }

/-- Events that move the address register to the palette and to pattern memory, without a store. -/
def pointed : List Event :=
  [.access (.write 0x2006 0x3f), .access (.write 0x3ffe 0x10), .dot, .access (.read 0x2007),
    .access (.write 0x8000 0xff), .plug none, .access (.write 0x2004 0xff)]

/-- Writes to a nametable and to a pattern table that is not there. -/
theorem picture_memory_law_table :
    tableBus.video.cartridge.board.memory.chr.size ≠ 0 ∧
    (tableBus.write 0x2007 0xff).content 0x3405 = 0xff ∧
    (tableBus.write 0x2007 0xff).content 0x2805 = tableBus.content 0x2805 ∧
    (tableBus.happenAll pointed).content 0x0001 = tableBus.content 0x0001 ∧
    (tableBus.happenAll (pointed ++ [.access (.write 0x2007 0xff)])).content 0x3f31 = 0x3f ∧
    (tableBus.happenAll pointed).ppu.palette.InRange ∧
    (tableBus.happenAll pointed).video.nametables[(0xc05 : Fin 4096)] =
      tableBus.video.nametables[(0xc05 : Fin 4096)] ∧
    (tableBus.runPpu 9).content 0x3f10 = tableBus.content 0x3f10 := by
  have hChr : tableBus.video.cartridge.board.memory.chr.size ≠ 0 := by decide
  obtain ⟨hWrite, hKept, hDots, hAll, hRange, hUpper⟩ := picture_memory_law tableBus hChr
  refine ⟨hChr, (hWrite _ _ _ rfl).trans ?_, (hWrite _ _ _ rfl).trans ?_, hKept _ _ ?_,
    (hAll _ _).trans ?_, hRange ?_ _, hUpper ?_ _ _ ?_, hDots _ _⟩
  · decide
  · exact if_neg (by decide)
  · decide
  · have hStores : tableBus.pictureStores (pointed ++ [.access (.write 0x2007 0xff)]) =
        [(0x3f11, 0xff)] := by decide
    rw [hStores, List.foldl_cons, List.foldl_nil, Nrom.pictureByte_palette]
    · rfl
    · decide
    · decide
  · intro cell
    simp [tableBus]
  · decide
  · decide

end Bus

end Nes
