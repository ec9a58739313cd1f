import Nes.Ppu.Registers

/-! Sprites: the memory that holds them, and how a sprite is turned into pattern addresses. -/

namespace Nes.Ppu

structure SpriteAttributes where
  byte : UInt8
  deriving DecidableEq, Repr

namespace SpriteAttributes

def palette (attributes : SpriteAttributes) : UInt8 :=
  attributes.byte &&& 0x03

/-- Whether the sprite is in front of the background. -/
def inFront (attributes : SpriteAttributes) : Bool :=
  attributes.byte &&& 0x20 == 0

def flipsHorizontally (attributes : SpriteAttributes) : Bool :=
  attributes.byte &&& 0x40 != 0

def flipsVertically (attributes : SpriteAttributes) : Bool :=
  attributes.byte &&& 0x80 != 0

end SpriteAttributes

/-- One sprite. It is shown from the line after `y` on. -/
structure Sprite where
  y : UInt8
  tile : UInt8
  attributes : SpriteAttributes
  x : UInt8
  deriving DecidableEq, Repr

namespace Sprite

/-- The sprite of four bytes `$ff`, which is what an unused place holds. -/
def unused : Sprite :=
  ⟨0xff, 0xff, ⟨0xff⟩, 0xff⟩

/-- A sprite of the given height has a row on the line after this one. -/
abbrev InRange (sprite : Sprite) (height line : Nat) : Prop :=
  sprite.y.toNat ≤ line ∧ line < sprite.y.toNat + height

/-- The row of a sprite that is shown on the line after this one, as a byte. -/
def row (sprite : Sprite) (height line : Nat) : UInt8 :=
  let row := UInt8.ofNat line - sprite.y
  if sprite.attributes.flipsVertically then UInt8.ofNat (height - 1) - row else row

/-- The pattern address of the row of a sprite that is shown on the line after this one. A tall
sprite chooses its table by the lowest bit of the tile; its upper half is the even tile and its
lower half the odd one. -/
def patternAddress (sprite : Sprite) (control : Control) (line : Nat) : UInt16 :=
  let row := (sprite.row control.spriteHeight line).toNat
  let tile := sprite.tile.toNat
  if control.tallSprites then
    let half := if 8 ≤ row then 1 else 0
    tileRowAddress (if tile % 2 = 1 then 0x1000 else 0x0000) (2 * (tile / 2) + half) row
  else
    tileRowAddress control.spriteTable tile row

end Sprite

/-- Sprite memory, four bytes for each of 64 sprites. -/
structure Oam where
  bytes : Vector UInt8 256 := Vector.replicate 256 0xff

namespace Oam

def index (address : UInt8) : Fin 256 :=
  ⟨address.toNat, address.toNat_lt⟩

def byte (oam : Oam) (address : UInt8) : UInt8 :=
  oam.bytes[index address]

def setByte (oam : Oam) (address value : UInt8) : Oam :=
  { oam with bytes := oam.bytes.set (index address) value }

/-- The byte that a program reads at an address. The unused bits of attributes read as zero. -/
def readByte (oam : Oam) (address : UInt8) : UInt8 :=
  if address % 4 = 2 then oam.byte address &&& 0xe3 else oam.byte address

def sprite (oam : Oam) (number : Fin 64) : Sprite where
  y := oam.bytes[4 * number.val]
  tile := oam.bytes[4 * number.val + 1]
  attributes := ⟨oam.bytes[4 * number.val + 2]⟩
  x := oam.bytes[4 * number.val + 3]

def sprites (oam : Oam) : List Sprite :=
  (List.finRange 64).map oam.sprite

/-- A byte that was stored is found where it was stored, and every other byte is as before. -/
theorem byte_setByte (oam : Oam) (stored address value : UInt8) :
    (oam.setByte stored value).byte address =
      if stored = address then value else oam.byte address := by
  simp only [setByte, byte, index, Fin.getElem_fin, Vector.getElem_set, UInt8.toNat_inj]

end Oam

end Nes.Ppu
