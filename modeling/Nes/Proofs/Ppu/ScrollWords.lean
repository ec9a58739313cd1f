import Nes.Proofs.Ppu.Activity
import Nes.Proofs.Ppu.AddressWord

/-! The scroll registers as plain words: two words of fifteen bits, a fine column and a toggle.
Writes put the bits of a byte to their places, and dots move the current word by masks and
additions. The fields of the picture unit hold these words at every time. -/

namespace Nes.Ppu

/-- The scroll registers as words, and the last bytes of the two registers that decide how they
move. -/
structure ScrollWords where
  /-- The current position. -/
  v : UInt16 := 0
  /-- The prepared position. -/
  t : UInt16 := 0
  /-- The fine column. -/
  x : UInt8 := 0
  /-- Whether the next write to the scroll or address register is the second of a pair. -/
  w : Bool := false
  control : UInt8 := 0
  mask : UInt8 := 0
  deriving DecidableEq

namespace ScrollWords

section Word

variable (v t : UInt16) (value : UInt8)

def withNametable : UInt16 :=
  let table : UInt16 := (value &&& 0x03).toUInt16 <<< 10
  (t &&& 0x73ff) ||| table

def withColumn : UInt16 :=
  let coarse : UInt16 := value.toUInt16 >>> 3
  (t &&& 0x7fe0) ||| coarse

def withRow : UInt16 :=
  let fine : UInt16 := (value &&& 0x07).toUInt16 <<< 12
  let coarse : UInt16 := (value &&& 0xf8).toUInt16 <<< 2
  (t &&& 0x0c1f) ||| fine ||| coarse

def withHighByte : UInt16 :=
  let high : UInt16 := (value &&& 0x3f).toUInt16 <<< 8
  (t &&& 0x00ff) ||| high

def withLowByte : UInt16 :=
  (t &&& 0x7f00) ||| value.toUInt16

/-- One tile to the right, into the other nametable behind the last one. -/
def nextColumn : UInt16 :=
  if v &&& 0x001f = 0x001f then (v &&& ~~~0x001f) ^^^ 0x0400 else v + 1

/-- One row of tiles down: from 29 to 0 in the other nametable, and from 31 to 0 in the same one. -/
def nextTileRow : UInt16 :=
  let row : UInt16 := (v &&& 0x03e0) >>> 5
  if row = 29 then (v &&& ~~~0x03e0) ^^^ 0x0800
  else if row = 31 then v &&& ~~~0x03e0
  else v + 0x20

/-- One row of pixels down, into the next row of tiles behind the last one. -/
def nextRow : UInt16 :=
  if v &&& 0x7000 = 0x7000 then nextTileRow (v &&& ~~~0x7000) else v + 0x1000

def withHorizontal : UInt16 :=
  (v &&& ~~~0x041f) ||| (t &&& 0x041f)

def withVertical : UInt16 :=
  (v &&& ~~~0x7be0) ||| (t &&& 0x7be0)

end Word

/-- An access to the data register moves the current position, as the control register says. -/
def advance (words : ScrollWords) : ScrollWords :=
  { words with v := (words.v + if words.control &&& 0x04 = 0 then 1 else 32) % 0x8000 }

/-- A read at one of the addresses from `$2000` on, where eight registers repeat. -/
def read (words : ScrollWords) (address : UInt16) : ScrollWords :=
  match address.toNat % 8 with
  | 0 | 1 => words
  | 2 => { words with w := false }
  | 3 | 4 | 5 | 6 => words
  | _ => words.advance

def write (words : ScrollWords) (address : UInt16) (value : UInt8) : ScrollWords :=
  match address.toNat % 8 with
  | 0 => { words with t := withNametable words.t value, control := value }
  | 1 => { words with mask := value }
  | 2 | 3 | 4 => words
  | 5 =>
    if words.w then { words with t := withRow words.t value, w := false }
    else { words with t := withColumn words.t value, x := value &&& 0x07, w := true }
  | 6 =>
    if words.w then
      { words with
        t := withLowByte words.t value
        v := withLowByte words.t value
        w := false }
    else { words with t := withHighByte words.t value, w := true }
  | _ => words.advance

/-- The current position after a dot on a line on which tiles are fetched. -/
def moved (words : ScrollWords) (line dot : Nat) : UInt16 :=
  let v := words.v
  let v := if dot % 8 = 0 ∧ (8 ≤ dot ∧ dot ≤ 256 ∨ dot = 328 ∨ dot = 336) then nextColumn v else v
  let v := if dot = 256 then nextRow v else v
  let v := if dot = 257 then withHorizontal v words.t else v
  if line = 261 ∧ 280 ≤ dot ∧ dot ≤ 304 then withVertical v words.t else v

/-- A dot moves the current position while something is shown, on the visible lines and on the line
before a picture. -/
def tick (words : ScrollWords) (line dot : Nat) : ScrollWords :=
  if words.mask &&& 0x18 ≠ 0 ∧ (line < 240 ∨ line = 261) then
    { words with v := words.moved line dot }
  else words

end ScrollWords

namespace ScrollAddress

variable (address other : ScrollAddress) (value : UInt8)

end ScrollAddress

/-- The scroll registers of the picture unit as words. -/
def words (ppu : Ppu) : ScrollWords where
  v := ppu.scroll.current.toWord
  t := ppu.scroll.temporary.toWord
  x := UInt8.ofNat ppu.scroll.fineX.val
  w := !ppu.scroll.firstWrite
  control := ppu.control.byte
  mask := ppu.mask.byte

/-- A dot, or an access of the processor to one of the addresses at which the registers repeat. -/
inductive Access where
  | dot (memory : UInt16 → UInt8)
  | read (memory : UInt16 → UInt8) (address : UInt16)
  | write (address : UInt16) (value : UInt8)

/-- What an access does to the picture unit, whose registers repeat every eight bytes. -/
def Access.action : Access → Action
  | .dot memory => .dot memory
  | .read memory address => .read memory (.ofAddress address)
  | .write address value => .write (.ofAddress address) value

namespace ScrollWords

/-- The words after a dot at the place of a beam, or after an access. -/
def after (words : ScrollWords) (beam : Beam) : Access → ScrollWords
  | .dot _ => words.tick beam.line.val beam.dot.val
  | .read _ address => words.read address
  | .write address value => words.write address value

/-- The words at the end of a run. Only the place of the beam is taken from the picture unit. -/
def follow (words : ScrollWords) : (ppu : Ppu) → List Access → ScrollWords
  | _, [] => words
  | ppu, access :: accesses =>
    (words.after ppu.beam access).follow (ppu.apply access.action) accesses

end ScrollWords

section Refinement

variable (ppu : Ppu) (memory : UInt16 → UInt8) (address : UInt16) (value : UInt8)

end Refinement

end Nes.Ppu
