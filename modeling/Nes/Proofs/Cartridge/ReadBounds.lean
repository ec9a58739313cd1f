import Nes.Proofs.Cartridge.Classification

/-! Loading asks for no byte that an image does not have. The loader is written once more, over an
image that hands out its bytes one at a time and has no answer if one of them is missing. It always
has the answer of the loader. -/

namespace Nes.Cartridge

/-- A computation without an answer if it asks for a byte that is missing. -/
abbrev Guarded (α : Type) := ExceptT LoadError (StateT Log Option) α

/-- A number of bytes, asked for one at a time. -/
def window (image : Array UInt8) (start : Nat) : (count : Nat) → Option (Array UInt8)
  | 0 => some #[]
  | count + 1 => do
    let front ← window image start count
    let last ← image[start + count]?
    return front.push last

namespace Guarded

def fetch (image : Array UInt8) (start count : Nat) : Guarded (Array UInt8) :=
  ExceptT.lift (StateT.lift (window image start count))

def report (level : Level) (text : String) : Guarded Unit :=
  modify fun log => log.add level text

/-- The header, from the first sixteen bytes. They are asked for only if the size is enough. -/
def readHeader (image : Array UInt8) : Guarded Header := do
  if Header.size ≤ image.size then
    let bytes := firstBytes (← fetch image 0 Header.size)
    unless bytes.toList.take 4 = Header.magic do
      throw (.unknownMagic (bytes.toList.take 4))
    if Header.hasDirtyPadding bytes then
      report .warn "dirty header padding, ignoring upper mapper nybble"
    let header := Header.ofBytes bytes
    if header.prgRomBanks = 0 then
      throw .noPrgRom
    if image.size < header.imageSize then
      throw (.truncated header.imageSize image.size)
    return header
  else
    throw (.imageTooSmall image.size)

/-- Work memory with the bytes of a trainer, if there is one. -/
def workRam (header : Header) (trainer : Array UInt8) : Array UInt8 :=
  if header.trainer then
    Array.replicate 0x1000 0 ++ trainer ++
      Array.replicate (CartridgeMemory.prgRamSize - 0x1000 - Header.trainerSize) 0
  else
    Array.replicate CartridgeMemory.prgRamSize 0

/-- The chips, from the parts that the header declares. -/
def chips (header : Header) (image : Array UInt8) : Guarded CartridgeMemory := do
  let trainer ← fetch image Header.size (if header.trainer then Header.trainerSize else 0)
  let prgRom ← fetch image header.prgRomOffset header.prgRomSize
  let chrRom ← fetch image (header.prgRomOffset + header.prgRomSize) header.chrRomSize
  return {
    prgRom
    prgRam := workRam header trainer
    chr :=
      if header.chrRomBanks = 0 then Array.replicate Header.chrRomBankSize 0 else chrRom
    chrIsRam := header.chrRomBanks = 0
    mirroring := header.mirroring }

def load (image : Array UInt8) : Guarded (Cartridge Nrom) := do
  let header ← readHeader image
  report .info header.summary
  let board ← Nrom.ofMapper header.mapper (← chips header image)
  return { header, board }

end Guarded

/-- A guarded computation has the answer of another one, from every log. -/
def Agrees {α : Type} (guarded : Guarded α) (loading : Loading α) : Prop :=
  ∀ log, guarded.run log = some (loading.run log : Except LoadError α × Log)

/-- A window inside an image has all its bytes. -/
theorem window_eq (image : Array UInt8) (start count : Nat) (hInside : start + count ≤ image.size) :
    window image start count = some (image.extract start (start + count)) := by
  induction count with
  | zero =>
      rw [Nat.add_zero, Array.extract_eq_empty_iff.mpr (Nat.min_le_left start image.size)]
      rfl
  | succ count ih =>
      have hLast : start + count < image.size := by omega
      rw [window, ih (by omega), ← Nat.add_assoc, Array.extract_succ_right (by omega) hLast]
      simp [hLast]

example : window #[1, 2, 3] 1 2 = some #[2, 3] ∧ window #[1, 2, 3] 1 3 = none := by
  decide

namespace Agrees

variable {α γ : Type}

theorem done (value : α) : Agrees (pure value) (pure value) :=
  fun _ => rfl

theorem fail (reason : LoadError) : Agrees (throw reason : Guarded α) (throw reason) :=
  fun _ => rfl

/-- Loaders agree if they go on alike with a part of the image that is there. -/
theorem fetch {image : Array UInt8} {start count : Nat} (hInside : start + count ≤ image.size)
    {rest : Array UInt8 → Guarded α} {loading : Loading α}
    (hRest : Agrees (rest (image.extract start (start + count))) loading) :
    Agrees (Guarded.fetch image start count >>= rest) loading := by
  intro log
  rw [← hRest log, Guarded.fetch, window_eq image start count hInside]
  rfl

theorem report (level : Level) (text : String) :
    Agrees (Guarded.report level text) (Loading.report level text) :=
  fun _ => rfl

/-- The second part only has to agree behind an answer that the first part can give. -/
theorem sequence {first : Guarded α} {loading : Loading α} {rest : α → Guarded γ}
    {next : α → Loading γ} (hFirst : Agrees first loading)
    (hRest : ∀ value log later, (loading.run log : Except LoadError α × Log) = (.ok value, later) →
      Agrees (rest value) (next value)) :
    Agrees (first >>= rest) (loading >>= next) := by
  intro log
  simp only [ExceptT.run_bind]
  simp only [bind, StateT.bind, hFirst log, Option.bind]
  cases hRun : (loading.run log : Except LoadError α × Log) with
  | mk answer later =>
      cases answer with
      | error reason => rfl
      | ok value => exact hRest value log later hRun later

/-- A first part that agrees with a value can be left out on the other side. -/
theorem given {first : Guarded α} {value : α} {rest : α → Guarded γ} {loading : Loading γ}
    (hFirst : Agrees first (pure value)) (hRest : Agrees (rest value) loading) :
    Agrees (first >>= rest) loading := by
  rw [← pure_bind value fun _ => loading]
  refine .sequence hFirst fun other log later hRun => ?_
  obtain rfl : value = other := Except.ok.inj (congrArg Prod.fst hRun)
  exact hRest

theorem except (result : Except LoadError α) :
    Agrees (liftM result) (liftM result) := by
  intro log
  cases result <;> rfl

section

variable {condition : Prop} [Decidable condition] {passed : Guarded α} {passed' : Loading α}
  {rest : Unit → Guarded α} {next : Unit → Loading α}

/-- Loaders agree if they make the same check, and agree once it is passed. -/
theorem check {reason : LoadError} (hPassed : Agrees passed passed') :
    Agrees (if condition then throw reason >>= rest else passed)
      (if condition then throw reason >>= next else passed') := by
  split
  · exact fun _ => rfl
  · exact hPassed

theorem checkNot {reason : LoadError} (hPassed : Agrees passed passed') :
    Agrees (if condition then passed else throw reason >>= rest)
      (if condition then passed' else throw reason >>= next) := by
  split
  · exact hPassed
  · exact fun _ => rfl

/-- Loaders agree if they give the same warning, and go on alike with it and without it. -/
theorem reportIf {level : Level} {text : String} (hPassed : Agrees passed passed')
    (hRest : rest () = passed) (hNext : next () = passed') :
    Agrees (if condition then Guarded.report level text >>= rest else passed)
      (if condition then Loading.report level text >>= next else passed') := by
  subst hRest hNext
  split
  · exact fun log => hPassed (log.add level text)
  · exact hPassed

end

end Agrees

theorem firstBytes_extract (image : Array UInt8) :
    firstBytes (image.extract 0 Header.size) = firstBytes image := by
  ext index hIndex
  have hByte : byteAt (image.extract 0 Header.size) index = byteAt image index := by
    simp only [byteAt, Header.size, Array.getD_eq_getD_getElem?, Array.getElem?_extract]
    split
    · rw [Nat.zero_add]
    · rw [Array.getElem?_eq_none (by omega)]
  simp [hByte]

/-- Reading the header stays inside the image. -/
theorem agrees_readHeader (image : Array UInt8) :
    Agrees (Guarded.readHeader image) (Header.read image) := by
  rw [Guarded.readHeader, Header.read]
  by_cases hEnough : Header.size ≤ image.size
  · rw [if_pos hEnough, dif_pos hEnough]
    refine .fetch (by omega) ?_
    rw [bytesOf_eq, Nat.zero_add, firstBytes_extract]
    refine .checkNot (.reportIf ?_ rfl rfl)
    exact .check (.check (.done _))
  · rw [if_neg hEnough, dif_neg hEnough]
    exact .fail _

theorem workRam_extract (header : Header) (image : Array UInt8) :
    Guarded.workRam header (image.extract Header.size
      (Header.size + if header.trainer then Header.trainerSize else 0)) =
      CartridgeMemory.prgRamOf header image := by
  cases hTrainer : header.trainer <;> simp [Guarded.workRam, CartridgeMemory.prgRamOf, hTrainer]

/-- Reading the memories stays inside an image that has the size that its header declares. -/
theorem agrees_chips (header : Header) (image : Array UInt8)
    (hSize : header.imageSize ≤ image.size) :
    Agrees (Guarded.chips header image) (pure (CartridgeMemory.ofImage header image)) := by
  rw [Header.imageSize] at hSize
  rw [Guarded.chips]
  refine .fetch (by omega) ?_
  refine .fetch (by rw [Header.prgRomOffset]; omega) ?_
  refine .fetch (by rw [Header.prgRomOffset]; omega) ?_
  rw [workRam_extract]
  exact .done _

/-- A header that was read has passed all checks. -/
theorem read_ok {image : Array UInt8} {header : Header} {log later : Log}
    (hRead : ((Header.read image).run log : Except LoadError Header × Log) = (.ok header, later)) :
    header = headerOf image ∧ firstReason (formatChecks image) = none := by
  rw [read_run] at hRead
  cases hFormat : firstReason (formatChecks image) with
  | some reason =>
      rw [hFormat] at hRead
      cases hRead
  | none =>
      rw [hFormat] at hRead
      exact ⟨(Except.ok.inj (congrArg Prod.fst hRead)).symm, rfl⟩

/-- Loading stays inside every image. -/
theorem agrees_load (image : Array UInt8) : Agrees (Guarded.load image) (load image) := by
  rw [Guarded.load, load]
  refine .sequence (agrees_readHeader image) fun header log later hRead => ?_
  refine .sequence (.report .info header.summary) fun _ _ _ _ => ?_
  obtain ⟨rfl, hFormat⟩ := read_ok hRead
  have hSize : (headerOf image).imageSize ≤ image.size := by
    have hLast := firstReason_eq_none.mp hFormat
      ⟨image.size < declaredSize image, .truncated (declaredSize image) image.size⟩
      (by simp [formatChecks])
    rw [imageSize_headerOf]
    simpa using hLast
  refine .given (agrees_chips _ image hSize) ?_
  exact .sequence (.except _) fun board _ _ _ => .done _

/-- An image is invalid, or for another board, or accepted. -/
theorem rejection_cases (image : Array UInt8) :
    IsInvalid image ∧ (∃ reason, rejection image = some reason ∧ saysInvalid reason = true) ∨
    ¬IsInvalid image ∧ mapperNumber image ≠ 0 ∧
      rejection image = some (.unsupportedMapper (.ofNat (mapperNumber image))) ∨
    ¬IsInvalid image ∧ mapperNumber image = 0 ∧ rejection image = none := by
  rw [← firstReason_format]
  cases hFormat : firstReason (formatChecks image) with
  | some reason =>
      exact .inl ⟨by simp, reason, rejection_of_format hFormat, saysInvalid_of_format hFormat⟩
  | none =>
      rw [rejection_of_board hFormat]
      by_cases hNumber : mapperNumber image = 0
      · exact .inr (.inr ⟨by simp, hNumber, if_pos hNumber⟩)
      · exact .inr (.inl ⟨by simp, hNumber, if_neg hNumber⟩)

theorem ofNat_mapperNumber (image : Array UInt8) (number : UInt16) :
    .ofNat (mapperNumber image) = number ↔ number.toNat = mapperNumber image := by
  rw [← toNat_mapperOf, UInt16.ofNat_toNat, ← UInt16.toNat_inj, eq_comm]

/-- Every image, whatever its bytes and their number, is answered by the first check that it fails.
So it counts as invalid exactly if it is shorter than a header, or is not marked, or declares no
program memory, or is shorter than it declares. Any other one loads exactly if its mapper number is
zero, and otherwise the answer carries that number. There is one warning, from a log that keeps
warnings, exactly if the header of a marked image has dirty padding, whatever the answer. The bytes
are asked for only where there are any. -/
theorem load_classifies (image : Array UInt8) (log : Log) :
    (∀ reason, (outcome image log).1 = .error reason ↔ rejection image = some reason) ∧
    ((∃ reason, (outcome image log).1 = .error reason ∧ saysInvalid reason = true) ↔
      IsInvalid image) ∧
    (∀ number, (outcome image log).1 = .error (.unsupportedMapper number) ↔
      ¬IsInvalid image ∧ mapperNumber image ≠ 0 ∧ number.toNat = mapperNumber image) ∧
    ((∃ cartridge, (outcome image log).1 = .ok cartridge) ↔
      ¬IsInvalid image ∧ mapperNumber image = 0) ∧
    (warnings (outcome image log).2 = warnings log +
      if log.keeps .warn ∧ 16 ≤ image.size ∧ isMarked image ∧ isDirty image then 1 else 0) ∧
    (Guarded.load image).run log = some (outcome image log) := by
  refine ⟨outcome_error_iff image log, ?_, fun number => ?_, ?_, ?_, ?_⟩
  · simp only [outcome_error_iff]
    obtain ⟨hInvalid, hReason⟩ | ⟨hValid, -, hReason⟩ | ⟨hValid, -, hReason⟩ :=
      rejection_cases image
    · exact iff_of_true hReason hInvalid
    · simp [hReason, hValid, saysInvalid]
    · simp [hReason, hValid]
  · rw [outcome_error_iff]
    obtain ⟨hInvalid, reason, hReason, hSays⟩ | ⟨hValid, hNumber, hReason⟩ |
      ⟨hValid, hNumber, hReason⟩ := rejection_cases image
    · rw [hReason]
      refine iff_of_false ?_ fun hRight => hRight.1 hInvalid
      rintro ⟨⟩
      cases hSays
    · simp [hReason, hValid, hNumber, ofNat_mapperNumber]
    · simp [hReason, hNumber]
  · simp only [outcome_ok_iff]
    obtain ⟨hInvalid, reason, hReason, -⟩ | ⟨hValid, hNumber, hReason⟩ |
      ⟨hValid, hNumber, hReason⟩ := rejection_cases image
    · simp [hReason, hInvalid]
    · simp [hReason, hNumber]
    · simp [hReason, hValid, hNumber]
  · rw [outcome_eq]
    exact warnings_loadedLog image log
  · exact agrees_load image log

end Nes.Cartridge
