import Nes.Cartridge.Basic
import Nes.Cartridge.Nrom
import Nes.Log
import Nes.Text.Decimal
import Nes.Text.Hex
import Nes.Text.Terminated

/-! Loading a cartridge from an image: the header, an optional trainer, program memory and pattern
memory, in this order. Bytes behind them are ignored. -/

namespace Nes

/-- Why an image does not give a cartridge. -/
inductive LoadError where
  /-- The image has fewer bytes than a header. -/
  | imageTooSmall (size : Nat)
  /-- The image does not start with the bytes that mark the format. -/
  | unknownMagic (bytes : List UInt8)
  /-- The header declares no program memory. -/
  | noPrgRom
  /-- The image ends before the memories that its header declares. -/
  | truncated (declared actual : Nat)
  /-- There is no board for this mapper number. -/
  | unsupportedMapper (mapper : UInt16)
  /-- The file with the image cannot be opened. -/
  | unreadable (path : String)
  deriving DecidableEq, Repr

namespace LoadError

/-- The text that tells the reason to a user. It ends early if the path in it has a NUL
character. -/
def message : LoadError → String
  | imageTooSmall size => s!"image too small for a header ({size} bytes)"
  | unknownMagic bytes =>
    "unknown image format, magic " ++
      String.intercalate " " (bytes.map fun b => String.ofList (Hex.lowerByte b))
  | noPrgRom => "header declares no prg rom"
  | truncated declared actual =>
    s!"image truncated: header declares {declared} bytes, got {actual}"
  | unsupportedMapper mapper => "unsupported mapper " ++ Decimal.padded 3 mapper.toNat
  | unreadable path => Terminated.content s!"could not open {path}"

end LoadError

/-- A computation that may fail to load and that leaves messages in either case. -/
abbrev Loading (α : Type) := ExceptT LoadError (StateM Log) α

namespace Loading

def report (level : Level) (text : String) : Loading Unit :=
  modify fun log => log.add level text

end Loading

namespace Header

/-- Reads and checks the header of an image. The checks run from the front to the back, and the
warning about dirty padding is given once the format is known, also when a later check fails. -/
def read (image : Array UInt8) : Loading Header := do
  if enough : size ≤ image.size then
    let bytes := bytesOf image enough
    unless bytes.toList.take 4 = magic do
      throw (.unknownMagic (bytes.toList.take 4))
    if hasDirtyPadding bytes then
      Loading.report .warn "dirty header padding, ignoring upper mapper nybble"
    let header := ofBytes bytes
    if header.prgRomBanks = 0 then
      throw .noPrgRom
    if image.size < header.imageSize then
      throw (.truncated header.imageSize image.size)
    return header
  else
    throw (.imageTooSmall image.size)

/-- One line that sums up the cartridge that a header describes. -/
def summary (header : Header) : String :=
  let chrRam := header.chrRomBanks == 0
  let kind := if chrRam then "ram" else "rom"
  let chrSize := if chrRam then chrRomBankSize else header.chrRomSize
  let battery := if header.battery then ", battery" else ""
  let trainer := if header.trainer then ", trainer" else ""
  s!"prg rom: {header.prgRomSize} bytes, chr {kind}: {chrSize} bytes, mapper: {header.mapper}, " ++
    s!"mirroring: {header.mirroring.name}{battery}{trainer}"

def prgRomOffset (header : Header) : Nat :=
  size + (if header.trainer then trainerSize else 0)

end Header

namespace CartridgeMemory

/-- The size of the work memory that every loaded cartridge gets. -/
def prgRamSize : Nat := 8 * 1024

/-- Work memory is zero, except for a trainer that is copied to `$7000`. -/
def prgRamOf (header : Header) (image : Array UInt8) : Array UInt8 :=
  if header.trainer then
    Array.replicate 0x1000 0 ++ image.extract Header.size (Header.size + Header.trainerSize) ++
      Array.replicate (prgRamSize - 0x1000 - Header.trainerSize) 0
  else
    Array.replicate prgRamSize 0

/-- The chips of the cartridge that an image describes. Without pattern data there is a chip of
writable pattern memory. -/
def ofImage (header : Header) (image : Array UInt8) : CartridgeMemory :=
  let prgStart := header.prgRomOffset
  let chrStart := prgStart + header.prgRomSize
  { prgRom := image.extract prgStart chrStart
    prgRam := prgRamOf header image
    chr :=
      if header.chrRomBanks = 0 then Array.replicate Header.chrRomBankSize 0
      else image.extract chrStart (chrStart + header.chrRomSize)
    chrIsRam := header.chrRomBanks = 0
    mirroring := header.mirroring }

end CartridgeMemory

/-- Puts chips on the board with the given mapper number. -/
def Nrom.ofMapper (mapper : UInt16) (memory : CartridgeMemory) : Except LoadError Nrom :=
  if mapper = Nrom.mapper then .ok ⟨memory⟩ else .error (.unsupportedMapper mapper)

namespace Cartridge

/-- Loads the cartridge that an image describes. -/
def load (image : Array UInt8) : Loading (Cartridge Nrom) := do
  let header ← Header.read image
  Loading.report .info header.summary
  let board ← Nrom.ofMapper header.mapper (CartridgeMemory.ofImage header image)
  return { header, board }

end Cartridge

end Nes
