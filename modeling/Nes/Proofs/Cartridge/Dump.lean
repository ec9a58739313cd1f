import Nes.Proofs.Cartridge.Classification
import Nes.Proofs.Cartridge.Nrom

/-! An image that is put together from the parts of a cartridge loads, and the cartridge presents
these parts. -/

namespace Nes.Cartridge

/-- A header by its fields. The flags are followed by the second byte of flags and by eight bytes
that say more in the extended format and should be zero otherwise. -/
def headerBytes (prgBanks chrBanks flags : UInt8) (rest : Vector UInt8 9) : Array UInt8 :=
  #[0x4e, 0x45, 0x53, 0x1a, prgBanks, chrBanks, flags] ++ rest.toArray

/-- The parts of a cartridge with the simplest board, together with a header that describes them, in
the plain format or in the extended one. -/
structure Dump where
  prgBanks : UInt8
  chrBanks : UInt8
  flags : UInt8
  rest : Vector UInt8 9
  trainer : Option (Vector UInt8 512)
  prg : Vector UInt8 (16384 * prgBanks.toNat)
  chr : Vector UInt8 (8192 * chrBanks.toNat)
  hasPrg : prgBanks ≠ 0
  flagsTrainer : flags.toNat.testBit 2 = trainer.isSome
  flagsBoard : mapperNumber (headerBytes prgBanks chrBanks flags rest) = 0

namespace Dump

variable (dump : Dump)

def header : Array UInt8 :=
  headerBytes dump.prgBanks dump.chrBanks dump.flags dump.rest

def trainerBytes : Array UInt8 :=
  match dump.trainer with
  | some trainer => trainer.toArray
  | none => #[]

/-- The image of the parts, with any bytes behind it. -/
def image (tail : Array UInt8) : Array UInt8 :=
  dump.header ++ dump.trainerBytes ++ dump.prg.toArray ++ dump.chr.toArray ++ tail

theorem size_header : dump.header.size = 16 := by
  simp [header, headerBytes]

theorem size_trainerBytes :
    dump.trainerBytes.size = if dump.flags.toNat.testBit 2 then 512 else 0 := by
  rw [dump.flagsTrainer, trainerBytes]
  cases dump.trainer <;> simp

theorem byteAt_image (tail : Array UInt8) {index : Nat} (hIndex : index < 16) :
    byteAt (dump.image tail) index = byteAt dump.header index := by
  have hInside : index < dump.header.size := by
    rw [size_header]
    exact hIndex
  simp only [byteAt, image, Array.append_assoc, Array.getD_eq_getD_getElem?,
    Array.getElem?_append_left hInside]

theorem firstBytes_image (tail : Array UInt8) :
    firstBytes (dump.image tail) = firstBytes dump.header := by
  ext index hIndex
  rw [getElem_firstBytes, getElem_firstBytes, dump.byteAt_image tail hIndex]

theorem prgBanks_image (tail : Array UInt8) : byteAt (dump.image tail) 4 = dump.prgBanks := by
  rw [dump.byteAt_image tail (by decide)]
  simp [byteAt, header, headerBytes]

theorem chrBanks_image (tail : Array UInt8) : byteAt (dump.image tail) 5 = dump.chrBanks := by
  rw [dump.byteAt_image tail (by decide)]
  simp [byteAt, header, headerBytes]

theorem flags_image (tail : Array UInt8) : byteAt (dump.image tail) 6 = dump.flags := by
  rw [dump.byteAt_image tail (by decide)]
  simp [byteAt, header, headerBytes]

/-- An image has the size that it declares and its tail. -/
theorem size_image (tail : Array UInt8) :
    (dump.image tail).size = declaredSize (dump.image tail) + tail.size := by
  rw [declaredSize, flags_image, prgBanks_image, chrBanks_image, ← size_trainerBytes]
  simp only [image, Array.size_append, size_header, Vector.size_toArray]

theorem marked_image (tail : Array UInt8) :
    (dump.image tail).toList.take 4 = [0x4e, 0x45, 0x53, 0x1a] := by
  simp [image, header, headerBytes]

/-- Every dump is for the simplest board. -/
theorem mapperNumber_image (tail : Array UInt8) : mapperNumber (dump.image tail) = 0 := by
  rw [← toNat_mapperOf, firstBytes_image, toNat_mapperOf]
  exact dump.flagsBoard

/-- A dump passes all checks of the format. -/
theorem format_image (tail : Array UInt8) :
    firstReason (formatChecks (dump.image tail)) = none := by
  refine Decidable.not_not.mp fun hSome => ?_
  have hSize := dump.size_image tail
  obtain hSmall | hMagic | hNone | hShort := (firstReason_format _).mp hSome
  · rw [declaredSize] at hSize
    omega
  · exact hMagic (dump.marked_image tail)
  · exact dump.hasPrg ((dump.prgBanks_image tail).symm.trans hNone)
  · omega

/-- Nothing speaks against a dump. -/
theorem rejection_image (tail : Array UInt8) : rejection (dump.image tail) = none := by
  rw [rejection_of_board (dump.format_image tail), if_pos (dump.mapperNumber_image tail)]

theorem headerOf_image (tail : Array UInt8) :
    headerOf (dump.image tail) = headerOf dump.header := by
  rw [headerOf, firstBytes_image, headerOf]

/-- The tail leaves no trace in the log. -/
theorem loadedLog_image (tail : Array UInt8) (log : Log) :
    loadedLog (dump.image tail) log = loadedLog (dump.image #[]) log := by
  have hWarned (tail : Array UInt8) : warnedLog (dump.image tail) log =
      if isDirty dump.header then
        log.add .warn "dirty header padding, ignoring upper mapper nybble" else log := by
    have hSize : 16 ≤ (dump.image tail).size := by
      rw [size_image, declaredSize]
      omega
    have hDirty : isDirty (dump.image tail) = isDirty dump.header := by
      rw [← hasDirtyPadding_firstBytes, firstBytes_image, hasDirtyPadding_firstBytes]
    simp only [warnedLog, hSize, (isMarked_iff _).mpr (dump.marked_image tail), hDirty, true_and]
  simp only [loadedLog, format_image, hWarned, headerOf_image]

def memory : CartridgeMemory where
  prgRom := dump.prg.toArray
  prgRam :=
    match dump.trainer with
    | some trainer => Array.replicate 0x1000 0 ++ trainer.toArray ++ Array.replicate 0xe00 0
    | none => Array.replicate 0x2000 0
  chr := if dump.chrBanks = 0 then Array.replicate 0x2000 0 else dump.chr.toArray
  chrIsRam := dump.chrBanks = 0
  mirroring :=
    if dump.flags.toNat.testBit 3 then .fourScreen
    else if dump.flags.toNat.testBit 0 then .vertical
    else .horizontal

/-- A part of an image is found behind everything that comes before it. -/
theorem extract_part {front part back : Array UInt8} {start stop : Nat}
    (hStart : start = front.size) (hStop : stop = front.size + part.size) :
    (front ++ (part ++ back)).extract start stop = part := by
  subst hStart hStop
  simp

theorem trainer_image (tail : Array UInt8) :
    (headerOf (dump.image tail)).trainer = dump.trainer.isSome := by
  rw [trainer_headerOf, flags_image, flagsTrainer]

/-- Program memory is behind the header and the trainer. -/
theorem prgRomOffset_image (tail : Array UInt8) :
    (headerOf (dump.image tail)).prgRomOffset = (dump.header ++ dump.trainerBytes).size := by
  rw [Header.prgRomOffset, trainer_headerOf, flags_image, Array.size_append, size_header,
    size_trainerBytes]
  rfl

theorem prgRomSize_image (tail : Array UInt8) :
    (headerOf (dump.image tail)).prgRomSize = dump.prg.toArray.size := by
  rw [Header.prgRomSize, prgRomBanks_headerOf, prgBanks_image, Vector.size_toArray, Nat.mul_comm]
  rfl

theorem chrRomBanks_image (tail : Array UInt8) :
    (headerOf (dump.image tail)).chrRomBanks = dump.chrBanks := by
  rw [chrRomBanks_headerOf, chrBanks_image]

theorem chrRomSize_image (tail : Array UInt8) :
    (headerOf (dump.image tail)).chrRomSize = dump.chr.toArray.size := by
  rw [Header.chrRomSize, chrRomBanks_image, Vector.size_toArray, Nat.mul_comm]
  rfl

theorem mirroring_image (tail : Array UInt8) :
    (headerOf (dump.image tail)).mirroring = dump.memory.mirroring := by
  rw [mirroring_headerOf, flags_image, memory]

/-- The program of an image is that of its dump. -/
theorem prgRom_image (tail : Array UInt8) :
    (dump.image tail).extract (headerOf (dump.image tail)).prgRomOffset
      ((headerOf (dump.image tail)).prgRomOffset + (headerOf (dump.image tail)).prgRomSize) =
      dump.prg.toArray := by
  rw [prgRomOffset_image, prgRomSize_image, image, Array.append_assoc, Array.append_assoc]
  exact extract_part rfl rfl

/-- The patterns of an image are those of its dump. -/
theorem chrRom_image (tail : Array UInt8) :
    (dump.image tail).extract
      ((headerOf (dump.image tail)).prgRomOffset + (headerOf (dump.image tail)).prgRomSize)
      ((headerOf (dump.image tail)).prgRomOffset + (headerOf (dump.image tail)).prgRomSize +
        (headerOf (dump.image tail)).chrRomSize) =
      dump.chr.toArray := by
  rw [prgRomOffset_image, prgRomSize_image, chrRomSize_image, ← Array.size_append, image,
    Array.append_assoc]
  exact extract_part rfl rfl

/-- Work memory holds the trainer of a dump and is zero elsewhere. -/
theorem prgRam_image (tail : Array UInt8) :
    CartridgeMemory.prgRamOf (headerOf (dump.image tail)) (dump.image tail) =
      dump.memory.prgRam := by
  rw [CartridgeMemory.prgRamOf, trainer_image]
  cases hTrainer : dump.trainer with
  | none =>
    simp only [Option.isSome_none, Bool.false_eq_true, if_false, memory, hTrainer]
    rfl
  | some trainer =>
    have hBytes : (dump.image tail).extract Header.size (Header.size + Header.trainerSize) =
        trainer.toArray := by
      simp only [image, trainerBytes, hTrainer, Array.append_assoc]
      refine extract_part dump.size_header.symm ?_
      rw [size_header, Vector.size_toArray]
      rfl
    have hRest : CartridgeMemory.prgRamSize - 0x1000 - Header.trainerSize = 0xe00 := rfl
    simp only [Option.isSome_some, if_true, hBytes, hRest, memory, hTrainer]

/-- The memories that an image gives are those of its dump, whatever its tail is. -/
theorem ofImage_image (tail : Array UInt8) :
    CartridgeMemory.ofImage (headerOf (dump.image tail)) (dump.image tail) = dump.memory := by
  simp only [CartridgeMemory.ofImage, prgRom_image, chrRom_image, prgRam_image, chrRomBanks_image,
    mirroring_image]
  rfl

def cartridge : Cartridge Nrom where
  header := headerOf dump.header
  board := ⟨dump.memory⟩

/-- Every image of a dump loads, and gives the cartridge of the dump. -/
theorem outcome_image (tail : Array UInt8) (log : Log) :
    outcome (dump.image tail) log = (.ok dump.cartridge, loadedLog (dump.image #[]) log) := by
  rw [outcome_eq, rejection_image, loadedLog_image, described, ofImage_image, headerOf_image]
  rfl

theorem size_prgRam : dump.memory.prgRam.size = 0x2000 := by
  simp only [memory]
  cases dump.trainer <;> simp only [Array.size_append, Array.size_replicate, Vector.size_toArray]

theorem repeated_prgRam {offset : Nat} (hOffset : offset < 0x2000) :
    Nrom.repeated dump.memory.prgRam offset = dump.memory.prgRam[offset]?.getD 0 := by
  rw [Nrom.repeated, size_prgRam, Nat.mod_eq_of_lt hOffset, Array.getD_eq_getD_getElem?]

/-- The bytes of a trainer are in work memory from its middle on. -/
theorem repeated_trainer {trainer : Vector UInt8 512} (hTrainer : dump.trainer = some trainer)
    (index : Fin 512) :
    Nrom.repeated dump.memory.prgRam (0x1000 + index.val) = trainer.get index := by
  rw [repeated_prgRam _ (by omega)]
  simp only [memory, hTrainer, Array.append_assoc]
  rw [Array.getElem?_append_right (by simp only [Array.size_replicate]; omega),
    Array.getElem?_append_left (by simp only [Array.size_replicate, Vector.size_toArray]; omega)]
  simp [Vector.get]

/-- Work memory is zero outside the trainer. -/
theorem repeated_zero {offset : Nat} (hOffset : offset < 0x2000)
    (hOther : dump.trainer = none ∨ offset < 0x1000 ∨ 0x1200 ≤ offset) :
    Nrom.repeated dump.memory.prgRam offset = 0 := by
  rw [repeated_prgRam _ hOffset]
  cases hTrainer : dump.trainer with
  | none =>
    simp only [memory, hTrainer, Array.getElem?_replicate, hOffset, if_true, Option.getD_some]
  | some trainer =>
    simp only [memory, hTrainer, Array.getElem?_append, Array.getElem?_replicate, Array.size_append,
      Array.size_replicate, Vector.size_toArray]
    obtain hNone | hBelow | hBehind := hOther
    · rw [hTrainer] at hNone
      cases hNone
    · rw [if_pos (by omega), if_pos hBelow, if_pos hBelow]
      rfl
    · rw [if_neg (by omega), if_pos (by omega)]
      rfl

theorem toNat_pos {banks : UInt8} (hBanks : banks ≠ 0) : 0 < banks.toNat := by
  refine Nat.pos_of_ne_zero fun hZero => hBanks ?_
  rw [← UInt8.toNat_inj, hZero]
  rfl

/-- Program memory repeats the program of a dump. -/
theorem prg_getElem? (index : Nat) :
    dump.prg[index % (16384 * dump.prgBanks.toNat)]? =
      some (Nrom.repeated dump.memory.prgRom index) := by
  have hBanks := toNat_pos dump.hasPrg
  have hByte := Nrom.getElem?_repeated dump.memory.prgRom index
    (by simp only [memory, Vector.size_toArray]; omega)
  simpa only [memory, Vector.size_toArray, Vector.getElem?_toArray] using hByte

/-- Pattern memory that a dump brings along is read as it is. -/
theorem chr_getElem? (hChr : dump.chrBanks ≠ 0) {index : Nat} (hIndex : index < 0x2000) :
    dump.chr[index]? = some (Board.readChr dump.cartridge.board (.ofNat index)) := by
  have hBanks := toNat_pos hChr
  have hChip : dump.memory.chr = dump.chr.toArray := if_neg hChr
  have hByte := Nrom.getElem?_repeated dump.chr.toArray index
    (by rw [Vector.size_toArray]; omega)
  rw [Vector.size_toArray, Nat.mod_eq_of_lt (by omega), Vector.getElem?_toArray] at hByte
  rw [hByte, ← hChip, Nrom.readChr_eq, Nrom.toNat_address index (by omega),
    Nat.mod_eq_of_lt hIndex]
  rfl

/-- A dump without patterns gets memory for them. -/
theorem hasChrRam (hChr : dump.chrBanks = 0) : Nrom.HasChrRam dump.cartridge.board where
  isRam := by simp only [cartridge, memory, hChr, decide_true]
  size := by simp only [cartridge, memory, hChr, if_true, Array.size_replicate]

theorem readChr_zero (hChr : dump.chrBanks = 0) (address : UInt16) :
    Board.readChr dump.cartridge.board address = 0 := by
  have hChip : dump.memory.chr = Array.replicate 0x2000 0 := if_pos hChr
  rw [Nrom.readChr_eq, cartridge, hChip, Nrom.repeated, Array.getD_eq_getD_getElem?,
    Array.getElem?_replicate]
  split <;> rfl

end Dump

/-- Loading undoes putting an image together. Whatever the parts, and whatever follows them in the
image, it loads, and what follows makes no difference. The program repeats over the upper half of
the address space. A trainer appears at `$7000`, and the rest of work memory is zero. Nothing
answers below `$6000`. The first bytes of pattern data fill the pattern tables and ignore writes; if
there are none, the tables are zero and keep what is written last. The flags choose the wiring of
the nametables. -/
theorem load_image (dump : Dump) : ∃ cartridge : Cartridge Nrom,
    (∀ log, ∃ later, ∀ tail, outcome (dump.image tail) log = (.ok cartridge, later)) ∧
    (∀ index < 0x8000, ∃ byte, dump.prg[index % (16384 * dump.prgBanks.toNat)]? = some byte ∧
      Board.readPrg cartridge.board (.ofNat (0x8000 + index)) = some byte) ∧
    (∀ trainer, dump.trainer = some trainer → ∀ index : Fin 512,
      Board.readPrg cartridge.board (.ofNat (0x7000 + index.val)) = some (trainer.get index)) ∧
    (∀ index < 0x2000, dump.trainer = none ∨ index < 0x1000 ∨ 0x1200 ≤ index →
      Board.readPrg cartridge.board (.ofNat (0x6000 + index)) = some 0) ∧
    (∀ address < 0x6000, Board.readPrg cartridge.board address = none) ∧
    (dump.chrBanks ≠ 0 →
      (∀ index < 0x2000,
        dump.chr[index]? = some (Board.readChr cartridge.board (.ofNat index))) ∧
      ∀ address value, Board.writeChr cartridge.board address value = cartridge.board) ∧
    (dump.chrBanks = 0 → ∀ writes address,
      Board.readChr (Nrom.writeAllChr cartridge.board writes) address =
        Nrom.lastWritten 0 writes address) ∧
    Board.mirroring cartridge.board =
      if dump.flags.toNat.testBit 3 then .fourScreen
      else if dump.flags.toNat.testBit 0 then .vertical
      else .horizontal := by
  have hRam : dump.cartridge.board.memory.prgRam.size ≠ 0 := by
    rw [Dump.cartridge, dump.size_prgRam]
    decide
  refine ⟨dump.cartridge, fun log => ⟨_, fun tail => dump.outcome_image tail log⟩,
    fun index hIndex => ⟨_, dump.prg_getElem? index, Nrom.readPrg_program _ hIndex⟩,
    fun trainer hTrainer index => ?_, fun index hIndex hOther => ?_,
    fun address hAddress => Nrom.readPrg_open _ hAddress, fun hChr => ⟨fun index hIndex =>
    dump.chr_getElem? hChr hIndex, fun address value => ?_⟩, fun hChr writes address => ?_, rfl⟩
  · have hAddress : 0x7000 + index.val = 0x6000 + (0x1000 + index.val) := by omega
    rw [hAddress, Nrom.readPrg_work _ (by omega) hRam, Dump.cartridge,
      dump.repeated_trainer hTrainer]
  · rw [Nrom.readPrg_work _ hIndex hRam, Dump.cartridge, dump.repeated_zero hIndex hOther]
  · exact Nrom.writeChr_rom (decide_eq_false hChr) address value
  · rw [(dump.hasChrRam hChr).read_writeAll, dump.readChr_zero hChr]

theorem trained_board : mapperNumber (headerBytes 1 0 0x05 (Vector.replicate 9 0)) = 0 := by
  decide

/-- A single bank of program memory behind a trainer, without pattern data. -/
def trained : Dump where
  prgBanks := 1
  chrBanks := 0
  flags := 0x05
  rest := Vector.replicate 9 0
  trainer := some (Vector.replicate 512 0x60)
  prg := Vector.replicate _ 0xea
  chr := Vector.replicate _ 0
  hasPrg := by decide
  flagsTrainer := rfl
  flagsBoard := trained_board

/-- A dump with a trainer and a single bank. -/
theorem load_image_trained : ∃ cartridge : Cartridge Nrom,
    (∀ tail log, (outcome (trained.image tail) log).1 = .ok cartridge) ∧
    Board.readPrg cartridge.board 0xc000 = some 0xea ∧
    Board.readPrg cartridge.board 0x71ff = some 0x60 ∧
    Board.readPrg cartridge.board 0x7200 = some 0 ∧
    Board.readPrg cartridge.board 0x5fff = none ∧
    Board.readChr (Nrom.writeAllChr cartridge.board [(0x1fff, 0x55)]) 0x1fff = 0x55 ∧
    Board.mirroring cartridge.board = .vertical := by
  obtain ⟨cartridge, hLoads, hPrg, hTrainer, hZero, hOpen, -, hChr, hWiring⟩ := load_image trained
  refine ⟨cartridge, fun tail log => ?_, ?_, ?_, hZero 0x1200 (by decide) (by decide),
    hOpen 0x5fff (by decide), ?_, ?_⟩
  · obtain ⟨later, hSame⟩ := hLoads log
    rw [hSame tail]
  · obtain ⟨byte, hByte, hRead⟩ := hPrg 0x4000 (by decide)
    have hBank : trained.prg[0x4000 % (16384 * trained.prgBanks.toNat)]? = some 0xea := by
      rw [trained, Vector.getElem?_replicate]
      rfl
    rw [hBank] at hByte
    exact hRead.trans hByte.symm
  · have hByte : (Vector.replicate 512 (0x60 : UInt8)).get 511 = 0x60 := Vector.getElem_replicate _
    exact hByte ▸ hTrainer _ rfl 511
  · exact hChr rfl [(0x1fff, 0x55)] 0x1fff
  · exact hWiring

end Nes.Cartridge
