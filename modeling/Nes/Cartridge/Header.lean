import Nes.Cartridge.Mirroring

/-! The sixteen byte header at the start of a cartridge image. -/

namespace Nes

/-- What the header of an image declares about the cartridge. -/
structure Header where
  /-- The number of 16 KB banks of program memory. -/
  prgRomBanks : UInt8 := 0
  /-- The number of 8 KB banks of pattern memory. None means that the cartridge has writable pattern
  memory instead. -/
  chrRomBanks : UInt8 := 0
  mapper : UInt16 := 0
  mirroring : Mirroring := .horizontal
  battery : Bool := false
  trainer : Bool := false
  /-- Whether the header is in the extended format, which has a longer mapper number. -/
  extended : Bool := false
  deriving DecidableEq, Repr

namespace Header

def size : Nat := 16

/-- The size of a trainer, a block of code that some images carry in front of the program. -/
def trainerSize : Nat := 512

def prgRomBankSize : Nat := 16 * 1024

def chrRomBankSize : Nat := 8 * 1024

/-- The first four bytes of every image: `NES` and an end of file character. -/
def magic : List UInt8 := [0x4e, 0x45, 0x53, 0x1a]

def prgRomSize (header : Header) : Nat :=
  header.prgRomBanks.toNat * prgRomBankSize

def chrRomSize (header : Header) : Nat :=
  header.chrRomBanks.toNat * chrRomBankSize

/-- The least size of an image with this header. -/
def imageSize (header : Header) : Nat :=
  size + (if header.trainer then trainerSize else 0) + header.prgRomSize + header.chrRomSize

/-- The first bytes of an image that has at least the size of a header. -/
def bytesOf (image : Array UInt8) (enough : size ≤ image.size) : Vector UInt8 16 :=
  ⟨image.extract 0 16, by simp only [size] at enough; simp; omega⟩

def isExtended (bytes : Vector UInt8 16) : Bool :=
  bytes[7] &&& 0x0c == 0x08

/-- Some old tools wrote their name over the end of a header in the plain format. The seventh flag
byte of such a header cannot be trusted. -/
def hasDirtyPadding (bytes : Vector UInt8 16) : Bool :=
  !isExtended bytes && (bytes[12] != 0 || bytes[13] != 0 || bytes[14] != 0 || bytes[15] != 0)

/-- The mapper number, which is spread over the high halves of both flag bytes. The extended format
has four more bits; behind dirty padding only the lowest four bits are used. -/
def mapperOf (bytes : Vector UInt8 16) : UInt16 :=
  let low := (bytes[6] >>> 4).toUInt16
  let middle := (bytes[7] &&& 0xf0).toUInt16
  let high := (bytes[8] &&& 0x0f).toUInt16 <<< 8
  if isExtended bytes then low ||| middle ||| high
  else if hasDirtyPadding bytes then low
  else low ||| middle

/-- The wiring of the nametables: a four screen board says so, and otherwise one bit chooses. -/
def mirroringOf (bytes : Vector UInt8 16) : Mirroring :=
  if bytes[6] &&& 0x08 != 0 then .fourScreen
  else if bytes[6] &&& 0x01 != 0 then .vertical
  else .horizontal

def ofBytes (bytes : Vector UInt8 16) : Header where
  prgRomBanks := bytes[4]
  chrRomBanks := bytes[5]
  mapper := mapperOf bytes
  mirroring := mirroringOf bytes
  battery := bytes[6] &&& 0x02 != 0
  trainer := bytes[6] &&& 0x04 != 0
  extended := isExtended bytes

end Header

end Nes
