import Nes.Cartridge.Load

/-! Which images load, and what is said about the others. The answer is given by the bytes of the
image alone, and no byte behind its end takes part in it. -/

namespace Nes.Cartridge

/-- What loading an image gives, and the log behind it. -/
def outcome (image : Array UInt8) (log : Log) : Except LoadError (Cartridge Nrom) × Log :=
  (load image).run log

/-- The byte of an image at an index, or zero behind its end. -/
def byteAt (image : Array UInt8) (index : Nat) : UInt8 :=
  image.getD index 0

/-- The size of the header and of all parts that it declares. -/
def declaredSize (image : Array UInt8) : Nat :=
  16 + (if (byteAt image 6).toNat.testBit 2 then 512 else 0) +
    16384 * (byteAt image 4).toNat + 8192 * (byteAt image 5).toNat

/-- The seventh byte says that the mapper number is longer than in the plain format. -/
def isLong (image : Array UInt8) : Bool :=
  byteAt image 7 &&& 0x0c == 8

/-- The last four bytes of a header in the plain format should be zero. -/
def isDirty (image : Array UInt8) : Bool :=
  !isLong image && [12, 13, 14, 15].any fun index => byteAt image index != 0

/-- The mapper number, as a number. -/
def mapperNumber (image : Array UInt8) : Nat :=
  let low := (byteAt image 6).toNat >>> 4
  let middle := (byteAt image 7).toNat &&& 0xf0
  let high := ((byteAt image 8).toNat &&& 0x0f) <<< 8
  if isLong image then low ||| middle ||| high
  else if isDirty image then low
  else low ||| middle

/-- A condition under which an image is rejected, and what is said then. -/
structure Check where
  fails : Bool
  reason : LoadError

/-- The first four bytes mark the format. -/
def isMarked (image : Array UInt8) : Bool :=
  image.toList.take 4 == [0x4e, 0x45, 0x53, 0x1a]

/-- The conditions under which an image is not valid, in their order. -/
def formatChecks (image : Array UInt8) : List Check :=
  [⟨image.size < 16, .imageTooSmall image.size⟩,
   ⟨!isMarked image, .unknownMagic (image.toList.take 4)⟩,
   ⟨byteAt image 4 == 0, .noPrgRom⟩,
   ⟨image.size < declaredSize image, .truncated (declaredSize image) image.size⟩]

/-- An image is not valid if it meets one of them. -/
def IsInvalid (image : Array UInt8) : Prop :=
  image.size < 16 ∨ image.toList.take 4 ≠ [0x4e, 0x45, 0x53, 0x1a] ∨ byteAt image 4 = 0 ∨
    image.size < declaredSize image

def boardCheck (image : Array UInt8) : Check :=
  ⟨mapperNumber image != 0, .unsupportedMapper (.ofNat (mapperNumber image))⟩

/-- The reason of the first condition that an image meets. -/
def firstReason (checks : List Check) : Option LoadError :=
  (checks.find? Check.fails).map Check.reason

/-- Why an image is rejected, if it is. -/
def rejection (image : Array UInt8) : Option LoadError :=
  firstReason (formatChecks image ++ [boardCheck image])

/-- The reasons that stand for an image that is not valid. -/
def saysInvalid : LoadError → Bool
  | .imageTooSmall _ | .unknownMagic _ | .noPrgRom | .truncated _ _ => true
  | .unsupportedMapper _ | .unreadable _ => false

/-- The first sixteen bytes of an image. -/
def firstBytes (image : Array UInt8) : Vector UInt8 16 :=
  Vector.ofFn fun index => byteAt image index

/-- What the first bytes of an image declare. -/
def headerOf (image : Array UInt8) : Header :=
  Header.ofBytes (firstBytes image)

/-- The log behind the checks of the format. -/
def warnedLog (image : Array UInt8) (log : Log) : Log :=
  if 16 ≤ image.size ∧ isMarked image ∧ isDirty image then
    log.add .warn "dirty header padding, ignoring upper mapper nybble"
  else log

/-- The log behind loading. A header that passes the checks is summed up, whatever its board. -/
def loadedLog (image : Array UInt8) (log : Log) : Log :=
  match firstReason (formatChecks image) with
  | some _ => warnedLog image log
  | none => (warnedLog image log).add .info (headerOf image).summary

/-- The number of warnings that a log keeps. -/
def warnings (log : Log) : Nat :=
  log.records.countP fun record => record.level == .warn

@[simp] theorem getElem_firstBytes (image : Array UInt8) (index : Nat) (hIndex : index < 16) :
    (firstBytes image)[index] = byteAt image index := by
  simp [firstBytes]

theorem bytesOf_eq (image : Array UInt8) (enough : Header.size ≤ image.size) :
    Header.bytesOf image enough = firstBytes image := by
  ext index hIndex
  have hInside : index < image.size := by
    simp only [Header.size] at enough
    omega
  simp [Header.bytesOf, byteAt, hInside]

theorem toList_firstBytes (image : Array UInt8) (enough : Header.size ≤ image.size) :
    (firstBytes image).toList.take 4 = image.toList.take 4 := by
  rw [← bytesOf_eq image enough]
  simp [Header.bytesOf, List.take_take]

/-- A mask with one bit tests that bit. -/
theorem masked_ne_zero (byte mask : UInt8) (bit : Nat) (hMask : mask.toNat = 1 <<< bit) :
    (byte &&& mask != 0) = byte.toNat.testBit bit := by
  have hMasked (i : Nat) : (byte &&& mask).toNat.testBit i =
      (byte.toNat.testBit i && decide (bit = i)) := by
    rw [UInt8.toNat_and, hMask, Nat.testBit_and, Nat.one_shiftLeft, Nat.testBit_two_pow]
  cases hBit : byte.toNat.testBit bit with
  | true =>
      refine bne_iff_ne.mpr fun hZero => ?_
      have hSelf := hMasked bit
      simp [hZero, hBit] at hSelf
  | false =>
      have hZero : (byte &&& mask).toNat = 0 := by
        refine Nat.eq_of_testBit_eq fun i => ?_
        rw [hMasked, Nat.zero_testBit, Bool.and_eq_false_iff, decide_eq_false_iff_not]
        rcases Decidable.em (bit = i) with rfl | hOther
        · exact .inl hBit
        · exact .inr hOther
      rw [bne_eq_false_iff_eq, ← UInt8.toNat_inj, hZero]
      rfl

theorem trainer_headerOf (image : Array UInt8) :
    (headerOf image).trainer = (byteAt image 6).toNat.testBit 2 := by
  simp only [headerOf, Header.ofBytes, getElem_firstBytes]
  exact masked_ne_zero _ _ 2 rfl

theorem mirroring_headerOf (image : Array UInt8) :
    (headerOf image).mirroring =
      if (byteAt image 6).toNat.testBit 3 then .fourScreen
      else if (byteAt image 6).toNat.testBit 0 then .vertical
      else .horizontal := by
  simp only [headerOf, Header.ofBytes, Header.mirroringOf, getElem_firstBytes,
    masked_ne_zero _ 0x08 3 rfl, masked_ne_zero _ 0x01 0 rfl]

theorem prgRomBanks_headerOf (image : Array UInt8) :
    (headerOf image).prgRomBanks = byteAt image 4 := by
  simp only [headerOf, Header.ofBytes, getElem_firstBytes]

theorem chrRomBanks_headerOf (image : Array UInt8) :
    (headerOf image).chrRomBanks = byteAt image 5 := by
  simp only [headerOf, Header.ofBytes, getElem_firstBytes]

theorem imageSize_headerOf (image : Array UInt8) :
    (headerOf image).imageSize = declaredSize image := by
  simp only [Header.imageSize, declaredSize, trainer_headerOf, Header.prgRomSize,
    prgRomBanks_headerOf, Header.chrRomSize, chrRomBanks_headerOf, Header.size, Header.trainerSize,
    Header.prgRomBankSize, Header.chrRomBankSize]
  omega

theorem isExtended_firstBytes (image : Array UInt8) :
    Header.isExtended (firstBytes image) = isLong image := by
  simp only [Header.isExtended, isLong, getElem_firstBytes]

theorem hasDirtyPadding_firstBytes (image : Array UInt8) :
    Header.hasDirtyPadding (firstBytes image) = isDirty image := by
  simp [Header.hasDirtyPadding, isDirty, isExtended_firstBytes, Bool.or_assoc]

/-- The mapper number in all three forms of a header. -/
theorem toNat_mapperOf (image : Array UInt8) :
    (Header.mapperOf (firstBytes image)).toNat = mapperNumber image := by
  simp only [Header.mapperOf, mapperNumber, isExtended_firstBytes, hasDirtyPadding_firstBytes,
    getElem_firstBytes]
  have hHigh (byte : UInt8) :
      (byte.toNat &&& 0x0f) <<< 8 % 65536 = (byte.toNat &&& 0x0f) <<< 8 := by
    have hLow : byte.toNat &&& 0x0f ≤ 0x0f := Nat.and_le_right
    rw [Nat.shiftLeft_eq]
    omega
  split
  · simp [hHigh]
  · split <;> simp

-- The number is in three bytes of a header in the extended format.
example : mapperNumber
    #[0x4e, 0x45, 0x53, 0x1a, 1, 0, 0x41, 0x18, 0x01, 0, 0, 0, 0, 0, 0, 0] = 0x114 := by
  decide

/-- The first reason is that of the first check that fails. -/
theorem firstReason_cons (check : Check) (checks : List Check) :
    firstReason (check :: checks) =
      if check.fails then some check.reason else firstReason checks := by
  cases hFails : check.fails <;> simp [firstReason, hFails]

/-- The conditions of the format one after another. -/
theorem firstReason_formatChecks (image : Array UInt8) :
    firstReason (formatChecks image) =
      if image.size < 16 then some (.imageTooSmall image.size)
      else if isMarked image = true then
        if byteAt image 4 = 0 then some .noPrgRom
        else if image.size < declaredSize image then
          some (.truncated (declaredSize image) image.size)
        else none
      else some (.unknownMagic (image.toList.take 4)) := by
  simp only [formatChecks, firstReason_cons, decide_eq_true_eq, beq_iff_eq, Bool.not_eq_true']
  cases isMarked image with
  | true => rfl
  | false => rfl

theorem isMarked_iff (image : Array UInt8) :
    isMarked image = true ↔ image.toList.take 4 = Header.magic :=
  beq_iff_eq

/-- A message that is left under a condition changes nothing but the log. -/
theorem run_reportIf {α : Type} (condition : Bool) (level : Level) (text : String)
    (next : Loading α) (log : Log) :
    ((if condition then do Loading.report level text; next else next).run log :
      Except LoadError α × Log) = next.run (if condition then log.add level text else log) := by
  cases condition with
  | true => rfl
  | false => rfl

/-- Reading a header gives what its bytes declare, or the first reason against the image. The
warning comes in both cases. -/
theorem read_run (image : Array UInt8) (log : Log) :
    ((Header.read image).run log : Except LoadError Header × Log) =
      (match firstReason (formatChecks image) with
        | some reason => .error reason
        | none => .ok (headerOf image), warnedLog image log) := by
  by_cases hSmall : image.size < 16
  · have hEnough : ¬Header.size ≤ image.size := by
      rw [Header.size]
      omega
    have hLog : warnedLog image log = log := if_neg (by omega)
    rw [Header.read, dif_neg hEnough, hLog, firstReason_formatChecks, if_pos hSmall]
    rfl
  have hEnough : Header.size ≤ image.size := by
    rw [Header.size]
    omega
  rw [Header.read, dif_pos hEnough, bytesOf_eq]
  dsimp only
  -- From here on both sides ask the same questions about the bytes of the image.
  rw [toList_firstBytes image hEnough, hasDirtyPadding_firstBytes, ← headerOf,
    prgRomBanks_headerOf, imageSize_headerOf, firstReason_formatChecks, if_neg hSmall]
  simp only [← isMarked_iff]
  by_cases hMarked : isMarked image = true
  · have hLog : warnedLog image log = if isDirty image then
        log.add .warn "dirty header padding, ignoring upper mapper nybble" else log := by
      simp only [warnedLog, hMarked, Nat.le_of_not_lt hSmall, true_and]
    rw [if_pos hMarked, if_pos hMarked, run_reportIf, ← hLog]
    by_cases hNone : byteAt image 4 = 0
    · rw [if_pos hNone, if_pos hNone]
      rfl
    rw [if_neg hNone, if_neg hNone]
    by_cases hShort : image.size < declaredSize image
    · rw [if_pos hShort, if_pos hShort]
      rfl
    · rw [if_neg hShort, if_neg hShort]
      rfl
  · have hLog : warnedLog image log = log := if_neg fun h => hMarked h.2.1
    rw [hLog, if_neg hMarked, if_neg hMarked]
    rfl

def described (image : Array UInt8) : Cartridge Nrom where
  header := headerOf image
  board := ⟨CartridgeMemory.ofImage (headerOf image) image⟩

/-- A board is found for one mapper number only. -/
theorem ofMapper_headerOf (image : Array UInt8) (memory : CartridgeMemory) :
    Nrom.ofMapper (headerOf image).mapper memory =
      match firstReason [boardCheck image] with
      | some reason => .error reason
      | none => .ok ⟨memory⟩ := by
  have hMapper : (headerOf image).mapper = .ofNat (mapperNumber image) := by
    rw [← toNat_mapperOf, UInt16.ofNat_toNat]
    rfl
  have hZero : (headerOf image).mapper = Nrom.mapper ↔ mapperNumber image = 0 := by
    rw [← toNat_mapperOf, ← UInt16.toNat_inj]
    rfl
  rw [Nrom.ofMapper, firstReason_cons]
  by_cases hNumber : mapperNumber image = 0
  · simp [hZero.mpr hNumber, boardCheck, hNumber, firstReason]
  · rw [if_neg (mt hZero.mp hNumber), hMapper]
    simp [boardCheck, hNumber]

/-- The reasons of two lists of checks, those of the first list before the others. -/
theorem firstReason_append (checks others : List Check) :
    firstReason (checks ++ others) = (firstReason checks).or (firstReason others) := by
  simp [firstReason, List.find?_append, Option.map_or]

/-- Loading gives the described cartridge, or the first reason against the image. -/
theorem outcome_eq (image : Array UInt8) (log : Log) : outcome image log =
    (match rejection image with
      | some reason => .error reason
      | none => .ok (described image), loadedLog image log) := by
  have hRead := read_run image log
  rw [rejection, firstReason_append]
  simp only [outcome, load, ExceptT.run_bind]
  simp only [bind, StateT.bind, hRead, loadedLog]
  cases firstReason (formatChecks image) with
  | some reason => rfl
  | none =>
      simp only [Option.none_or, ofMapper_headerOf]
      cases firstReason [boardCheck image] <;> rfl

/-- There is no reason exactly if no check fails. -/
theorem firstReason_eq_none {checks : List Check} :
    firstReason checks = none ↔ ∀ check ∈ checks, check.fails = false := by
  simp [firstReason]

/-- The reasons of the format say that an image is not valid. -/
theorem saysInvalid_of_format {image : Array UInt8} {reason : LoadError}
    (hFormat : firstReason (formatChecks image) = some reason) : saysInvalid reason = true := by
  obtain ⟨check, hFind, rfl⟩ := Option.map_eq_some_iff.mp hFormat
  have hAll : ∀ check ∈ formatChecks image, saysInvalid check.reason = true := by
    simp [formatChecks, saysInvalid]
  exact hAll check (List.mem_of_find?_eq_some hFind)

/-- There is a reason of the format exactly if the image is not valid. -/
theorem firstReason_format (image : Array UInt8) :
    firstReason (formatChecks image) ≠ none ↔ IsInvalid image := by
  rw [Ne, firstReason_eq_none]
  simp only [IsInvalid, formatChecks, isMarked, List.forall_mem_cons, List.not_mem_nil,
    false_implies, implies_true, and_true, decide_eq_false_iff_not, Bool.not_eq_false', beq_iff_eq,
    beq_eq_false_iff_ne, Decidable.not_and_iff_not_or_not, Decidable.not_not, ne_eq]

theorem rejection_of_format {image : Array UInt8} {reason : LoadError}
    (hFormat : firstReason (formatChecks image) = some reason) :
    rejection image = some reason := by
  rw [rejection, firstReason_append, hFormat, Option.some_or]

/-- A valid image is rejected for its mapper number only. -/
theorem rejection_of_board {image : Array UInt8}
    (hFormat : firstReason (formatChecks image) = none) :
    rejection image = if mapperNumber image = 0 then none
      else some (.unsupportedMapper (.ofNat (mapperNumber image))) := by
  rw [rejection, firstReason_append, hFormat, Option.none_or, firstReason_cons]
  by_cases hNumber : mapperNumber image = 0 <;> simp [boardCheck, hNumber, firstReason]

/-- An image is rejected for the reason that its bytes give. -/
theorem outcome_error_iff (image : Array UInt8) (log : Log) (reason : LoadError) :
    (outcome image log).1 = .error reason ↔ rejection image = some reason := by
  rw [outcome_eq]
  cases rejection image <;> simp

-- An image that ends behind its header, which has dirty padding and another mapper number.
example : rejection
    #[0x4e, 0x45, 0x53, 0x1a, 1, 0, 0x41, 0x10, 0, 0, 0, 0, 0x44, 0x69, 0, 0] =
      some (.truncated 16400 16) := by
  decide

/-- An image loads if its bytes give no reason, and gives what they describe. -/
theorem outcome_ok_iff (image : Array UInt8) (log : Log) (cartridge : Cartridge Nrom) :
    (outcome image log).1 = .ok cartridge ↔
      rejection image = none ∧ cartridge = described image := by
  rw [outcome_eq]
  cases rejection image <;> simp [eq_comm]

/-- A message counts as a warning if it is one and the log keeps it. -/
theorem warnings_add (log : Log) (level : Level) (text : String) :
    warnings (log.add level text) =
      warnings log + if log.keeps level ∧ level = .warn then 1 else 0 := by
  rw [Log.add]
  split
  · simp [warnings, Array.countP_push, *]
  · simp [*]

/-- Loading warns once at most. -/
theorem warnings_loadedLog (image : Array UInt8) (log : Log) :
    warnings (loadedLog image log) = warnings log +
      if log.keeps .warn ∧ 16 ≤ image.size ∧ isMarked image ∧ isDirty image then 1 else 0 := by
  have hInfo (later : Log) (text : String) : warnings (later.add .info text) = warnings later := by
    simp [warnings_add]
  have hWarned : warnings (loadedLog image log) = warnings (warnedLog image log) := by
    rw [loadedLog]
    split
    · rfl
    · exact hInfo _ _
  rw [hWarned, warnedLog]
  split
  · simp [warnings_add, *]
  · simp_all

end Nes.Cartridge
