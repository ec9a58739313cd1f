import Nes.Ppu.SpriteUnits
import Nes.Proofs.Ppu.PixelStream
import Nes.Proofs.Ppu.SpriteChoice

/-! Sprites without a pipeline: the value of each pixel of a sprite, read from memory. A unit that
is set up with the two planes of a row shows these values column by column. -/

namespace Nes.Ppu

namespace Sprite

variable (sprite : Sprite) (memory : UInt16 → UInt8) (control : Control)

/-- The row of its picture that a sprite of the given height shows on a line. -/
def pictureRow (height y : Nat) : Nat :=
  let row := y - 1 - sprite.y.toNat
  if sprite.attributes.byte &&& 0x80 = 0 then row else height - 1 - row

/-- The column of its picture that a sprite shows in a column of the screen. -/
def pictureColumn (x : Nat) : Nat :=
  let column := x - sprite.x.toNat
  if sprite.attributes.byte &&& 0x40 = 0 then column else 7 - column

/-- The address of the low bit plane of the row on a line. The high one is eight bytes after it. -/
def planeAddress (y : Nat) : UInt16 :=
  let tile := sprite.tile.toNat
  if control.byte &&& 0x20 = 0 then
    let table := if control.byte &&& 0x08 = 0 then 0 else 0x1000
    UInt16.ofNat (table + 16 * tile + sprite.pictureRow 8 y)
  else
    let row := sprite.pictureRow 16 y
    UInt16.ofNat (0x1000 * (tile % 2) + 16 * (2 * (tile / 2) + row / 8) + row % 8)

/-- The value of a pixel of the screen on a line that the sprite reaches. -/
def valueAt (x y : Nat) : Nat :=
  if sprite.x.toNat ≤ x ∧ x < sprite.x.toNat + 8 then
    let bit := 7 - sprite.pictureColumn x
    2 * ((memory (sprite.planeAddress control y + 8)).toNat.testBit bit).toNat +
      ((memory (sprite.planeAddress control y)).toNat.testBit bit).toNat
  else 0

/-- The unit that is set up for the row on a line. -/
def unit (y : Nat) : SpriteUnit :=
  .load sprite true (memory (sprite.planeAddress control y))
    (memory (sprite.planeAddress control y + 8))

/-- One bit makes sprites tall. -/
theorem tallSprites_iff : control.tallSprites = true ↔ ¬ control.byte &&& 0x20 = 0 :=
  bne_iff_ne

/-- One bit chooses the table of small sprites. -/
theorem toNat_spriteTable :
    control.spriteTable.toNat = if control.byte &&& 0x08 = 0 then 0 else 0x1000 := by
  simp only [Control.spriteTable, bne_iff_ne, ne_eq, ite_not]
  split <;> rfl

theorem spriteHeight_le : control.spriteHeight ≤ 16 := by
  rw [Control.spriteHeight]
  split <;> decide

/-- The row is counted with bytes, whose differences wrap around. -/
theorem toNat_row {line : Nat} {height : Nat} (hHeight : height ≤ 16)
    (hLine : sprite.OnLine height (line + 1)) :
    (sprite.row height line).toNat = sprite.pictureRow height (line + 1) := by
  have hRow : (UInt8.ofNat line - sprite.y).toNat = line - sprite.y.toNat := by
    have hLt := sprite.y.toNat_lt
    rw [UInt8.toNat_sub, UInt8.toNat_ofNat']
    omega
  simp only [row, pictureRow, Nat.add_sub_cancel, SpriteAttributes.flipsVertically, bne_iff_ne,
    ne_eq, ite_not]
  split
  · exact hRow
  · rw [UInt8.toNat_sub, UInt8.toNat_ofNat', hRow]
    omega

/-- A sprite on a line has a row there. -/
theorem pictureRow_lt {height y : Nat} (hLine : sprite.OnLine height y) :
    sprite.pictureRow height y < height := by
  rw [pictureRow]
  split <;> omega

/-- The address that a rendering unit computes is that of the row on the next line. -/
theorem patternAddress_eq {line : Nat} (hLine : sprite.OnLine control.spriteHeight (line + 1)) :
    sprite.patternAddress control line = sprite.planeAddress control (line + 1) := by
  have hRow := sprite.pictureRow_lt hLine
  rw [patternAddress, sprite.toNat_row (spriteHeight_le control) hLine, planeAddress]
  rw [Control.spriteHeight] at hRow ⊢
  by_cases hTall : control.tallSprites = true
  · have hBit := (tallSprites_iff control).mp hTall
    rw [if_pos hTall] at hRow
    have hHalf : (if 8 ≤ sprite.pictureRow 16 (line + 1) then 1 else 0) =
        sprite.pictureRow 16 (line + 1) / 8 := by
      split <;> omega
    have hTable : (if sprite.tile.toNat % 2 = 1 then (0x1000 : UInt16) else 0x0000).toNat =
        0x1000 * (sprite.tile.toNat % 2) := by
      split
      · rename_i hOdd
        rw [hOdd]
        rfl
      · rename_i hEven
        rw [show sprite.tile.toNat % 2 = 0 by omega]
        rfl
    simp only [hTall, if_true, if_neg hBit, hHalf, tileRowAddress, hTable]
  · have hBit := Decidable.of_not_not (mt (tallSprites_iff control).mpr hTall)
    rw [if_neg hTall] at hRow
    simp only [if_neg hTall, if_pos hBit, tileRowAddress, Nat.mod_eq_of_lt hRow, toNat_spriteTable]

end Sprite

/-- The sprites of a line, with the memory and the settings that their pictures are taken with. -/
structure SpriteRow where
  memory : UInt16 → UInt8
  control : Control
  y : Nat
  sprites : List Sprite

/-- The first sprite of the line that has a visible pixel in a column. -/
def SpriteRow.top? (row : SpriteRow) (x : Nat) : Option Sprite :=
  row.sprites.find? fun sprite => sprite.valueAt row.memory row.control x row.y != 0

/-- A reversed byte has its columns in the opposite order. -/
theorem byteBit_reverseBits (byte : UInt8) {column : Nat} (hColumn : column < 8) :
    byteBit (reverseBits byte) column = byteBit byte (7 - column) := by
  have hAll : ∀ (number : Fin 256) (column : Fin 8),
      byteBit (reverseBits (UInt8.ofNat number.val)) column.val =
        byteBit (UInt8.ofNat number.val) (7 - column.val) := by decide +kernel
  have hByte := hAll ⟨byte.toNat, byte.toNat_lt⟩ ⟨column, hColumn⟩
  rwa [UInt8.ofNat_toNat] at hByte

/-- A bit plane out of which a number of places has been moved, and nothing in behind them. -/
def Moved (original : UInt8) (places : Nat) (plane : UInt8) : Prop :=
  ∀ column < 8, byteBit plane column =
    (decide (column + places < 8) && byteBit original (column + places))

namespace Moved

theorem zero (original : UInt8) : Moved original 0 original := by
  intro column hColumn
  rw [Nat.add_zero, decide_eq_true hColumn, Bool.true_and]

theorem shiftIn {original plane : UInt8} {places : Nat} (hMoved : Moved original places plane) :
    Moved original (places + 1) (Plane.shiftIn plane 0) := by
  intro column hColumn
  rw [byteBit_shiftIn plane 0 hColumn]
  by_cases hLast : column = 7
  · rw [if_pos hLast, decide_eq_false (by omega)]
    rfl
  · rw [if_neg hLast, hMoved (column + 1) (by omega), Nat.add_right_comm, Nat.add_assoc]

end Moved

namespace SpriteUnit

open ShiftRegister

def after (unit : SpriteUnit) : (columns : Nat) → SpriteUnit
  | 0 => unit
  | columns + 1 => (unit.after columns).shift

section Shift

variable (unit : SpriteUnit)

theorem attributes_shift : unit.shift.attributes = unit.attributes := by
  rw [shift]
  split <;> rfl

theorem counter_shift : unit.shift.counter.toNat = unit.counter.toNat - 1 := by
  rw [shift]
  split
  · rename_i hZero
    rw [hZero]
    rfl
  · rename_i hSome
    have hPositive : unit.counter.toNat ≠ 0 := fun h => hSome (UInt8.toNat_inj.mp h)
    have hOne : (1 : UInt8) ≤ unit.counter := by
      rw [UInt8.le_iff_toNat_le, UInt8.toNat_one]
      omega
    exact UInt8.toNat_sub_of_le _ _ hOne

/-- The pixels stay until the counter has come to its end. -/
theorem pattern_shift : unit.shift.pattern =
    if unit.counter.toNat = 0 then unit.pattern.shift 0 else unit.pattern := by
  have hZero : unit.counter = 0 ↔ unit.counter.toNat = 0 := by
    rw [← UInt8.toNat_inj]
    rfl
  simp only [shift, hZero]
  split <;> rfl

end Shift

variable (unit : SpriteUnit) (columns : Nat)

theorem attributes_after : (unit.after columns).attributes = unit.attributes := by
  induction columns with
  | zero => rfl
  | succ columns ih => rw [after, attributes_shift, ih]

/-- The counter of a unit runs down with the columns, and stops at zero. -/
theorem counter_after :
    (unit.after columns).counter.toNat = unit.counter.toNat - columns := by
  induction columns with
  | zero => rfl
  | succ columns ih => rw [after, counter_shift, ih, Nat.sub_sub]

/-- From its column on a unit moves its pixels out. -/
theorem planes_after :
    Moved unit.pattern.upper (columns - unit.counter.toNat) (unit.after columns).pattern.upper ∧
      Moved unit.pattern.lower (columns - unit.counter.toNat)
        (unit.after columns).pattern.lower := by
  induction columns with
  | zero =>
      rw [Nat.zero_sub]
      exact ⟨.zero _, .zero _⟩
  | succ columns ih =>
      rw [after, pattern_shift, unit.counter_after columns]
      split
      · rw [show columns + 1 - unit.counter.toNat = columns - unit.counter.toNat + 1 by omega]
        exact ⟨ih.1.shiftIn, ih.2.shiftIn⟩
      · rw [show columns + 1 - unit.counter.toNat = columns - unit.counter.toNat by omega]
        exact ih

/-- A unit counts down to the column of its sprite and then shows its row of pixels. -/
theorem value_after : (unit.after columns).value.toNat =
    if unit.counter.toNat ≤ columns ∧ columns < unit.counter.toNat + 8 then
      pixelOf (byteBit unit.pattern.upper (columns - unit.counter.toNat))
        (byteBit unit.pattern.lower (columns - unit.counter.toNat))
    else 0 := by
  have hCounter := unit.counter_after columns
  obtain ⟨hUpper, hLower⟩ := unit.planes_after columns
  rw [value]
  by_cases hReached : unit.counter.toNat ≤ columns
  · have hZero : (unit.after columns).counter = 0 := by
      rw [← UInt8.toNat_inj, hCounter, UInt8.toNat_zero]
      omega
    have hFirst : (0 : Nat) < 8 := by decide
    rw [if_pos hZero, toNat_pixel]
    simp only [Plane.front]
    rw [hUpper 0 hFirst, hLower 0 hFirst, Nat.zero_add]
    by_cases hInside : columns < unit.counter.toNat + 8
    · rw [if_pos ⟨hReached, hInside⟩, decide_eq_true (by omega), Bool.true_and, Bool.true_and]
    · rw [if_neg fun h => hInside h.2, decide_eq_false (by omega)]
      rfl
  · have hSome : (unit.after columns).counter ≠ 0 := by
      intro hZero
      rw [hZero, UInt8.toNat_zero] at hCounter
      omega
    rw [if_neg hSome, if_neg fun h => hReached h.1]
    rfl

/-- A unit that is set up for a sprite shows the pixels of the sprite. -/
theorem value_unit (sprite : Sprite) (memory : UInt16 → UInt8) (control : Control) (x y : Nat) :
    ((sprite.unit memory control y).after x).value.toNat = sprite.valueAt memory control x y := by
  have hPlane (byte : UInt8) (hInside : x - sprite.x.toNat < 8) :
      byteBit (if sprite.attributes.flipsHorizontally then reverseBits byte else byte)
        (x - sprite.x.toNat) = byte.toNat.testBit (7 - sprite.pictureColumn x) := by
    simp only [Sprite.pictureColumn, SpriteAttributes.flipsHorizontally, bne_iff_ne, ne_eq, ite_not]
    split
    · rfl
    · exact byteBit_reverseBits byte hInside
  rw [value_after]
  simp only [Sprite.unit, load, Bool.true_and]
  rw [Sprite.valueAt]
  by_cases hInside : sprite.x.toNat ≤ x ∧ x < sprite.x.toNat + 8
  · rw [if_pos hInside, if_pos hInside, hPlane _ (by omega), hPlane _ (by omega)]
    rfl
  · rw [if_neg hInside, if_neg hInside]

/-- A unit shows its sprite where the sprite has a pixel. -/
theorem isVisible_unit (sprite : Sprite) (memory : UInt16 → UInt8) (control : Control) (x y : Nat) :
    ((sprite.unit memory control y).after x).isVisible =
      (sprite.valueAt memory control x y != 0) := by
  rw [← value_unit, isVisible, Bool.eq_iff_iff, bne_iff_ne, bne_iff_ne, ne_eq, ← UInt8.toNat_inj]
  rfl

abbrev Blank (unit : SpriteUnit) : Prop :=
  unit.pattern = .empty

theorem blank_after {unit : SpriteUnit} (hBlank : unit.Blank) : (unit.after columns).Blank := by
  induction columns with
  | zero => exact hBlank
  | succ columns ih =>
      rw [Blank, after, pattern_shift, ih]
      exact ite_self _

/-- A blank unit shows nothing. -/
theorem value_of_blank {unit : SpriteUnit} (hBlank : unit.Blank) : unit.value = 0 := by
  rw [value, hBlank]
  split <;> rfl

end SpriteUnit

end Nes.Ppu
