/-! A checksum of a sequence of bytes: FNV-1a with 64 bits. -/

namespace Nes.Checksum

def mix (hash : UInt64) (byte : UInt8) : UInt64 :=
  (hash ^^^ byte.toUInt64) * 0x100000001b3

/-- The checksum of a sequence of bytes, from the customary starting value. -/
def ofBytes (bytes : Array UInt8) : UInt64 :=
  bytes.foldl mix 0xcbf29ce484222325

end Nes.Checksum
