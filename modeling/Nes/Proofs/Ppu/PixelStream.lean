import Nes.Ppu.ShiftRegister

/-! Shift registers as windows on a stream of pixels. Columns are counted from the left end, where
the bits leave. -/

namespace Nes.Ppu

def byteBit (byte : UInt8) (column : Nat) : Bool :=
  byte.toNat.testBit (7 - column)

def wordBit (word : UInt16) (column : Nat) : Bool :=
  word.toNat.testBit (15 - column)

theorem testBit_shiftIn (n bit i : Nat) :
    (n <<< 1 ||| bit &&& 1).testBit i = if i = 0 then bit.testBit 0 else n.testBit (i - 1) := by
  rw [Nat.testBit_or, Nat.testBit_shiftLeft, Nat.testBit_and]
  cases i with
  | zero => simp
  | succ i =>
      have hOne : (1 : Nat).testBit (i + 1) = false := by simp [Nat.testBit_succ]
      simp [hOne]

/-- Shifting moves the pixels of a byte by one column. -/
theorem byteBit_shiftIn (plane bit : UInt8) {column : Nat} (hColumn : column < 8) :
    byteBit (Plane.shiftIn plane bit) column =
      if column = 7 then bit.toNat.testBit 0 else byteBit plane (column + 1) := by
  simp only [byteBit, Plane.shiftIn, UInt8.toNat_or, UInt8.toNat_shiftLeft, UInt8.toNat_and]
  rw [Nat.testBit_or, Nat.testBit_mod_two_pow, decide_eq_true (by omega), Bool.true_and,
    ← Nat.testBit_or]
  refine (testBit_shiftIn _ _ _).trans ?_
  by_cases hLast : column = 7
  · rw [if_pos hLast, if_pos (by omega)]
  · rw [if_neg hLast, if_neg (by omega), show 7 - column - 1 = 7 - (column + 1) by omega]

theorem wordBit_shiftIn (plane : UInt16) (bit : UInt8) {column : Nat} (hColumn : column < 16) :
    wordBit (Plane.shiftIn plane bit) column =
      if column = 15 then bit.toNat.testBit 0 else wordBit plane (column + 1) := by
  simp only [wordBit, Plane.shiftIn, UInt16.toNat_or, UInt16.toNat_shiftLeft, UInt8.toNat_toUInt16,
    UInt8.toNat_and]
  rw [Nat.testBit_or, Nat.testBit_mod_two_pow, decide_eq_true (by omega), Bool.true_and,
    ← Nat.testBit_or]
  refine (testBit_shiftIn _ _ _).trans ?_
  by_cases hLast : column = 15
  · rw [if_pos hLast, if_pos (by omega)]
  · rw [if_neg hLast, if_neg (by omega), show 15 - column - 1 = 15 - (column + 1) by omega]

/-- A byte that is loaded into a word replaces the right half. -/
theorem wordBit_reload (plane : UInt16) (byte : UInt8) {column : Nat} (hColumn : column < 16) :
    wordBit (Plane.reload plane byte) column =
      if column < 8 then wordBit plane column else byteBit byte (column - 8) := by
  have hMask : ∀ i < 16, (0xff00 : Nat).testBit i = decide (8 ≤ i) := by decide
  simp only [wordBit, byteBit, Plane.reload, UInt16.toNat_or, UInt16.toNat_and,
    UInt8.toNat_toUInt16, Nat.testBit_or, Nat.testBit_and]
  rw [show (0xff00 : UInt16).toNat = 0xff00 from rfl, hMask _ (by omega)]
  by_cases hLeft : column < 8
  · have hAbove : byte.toNat.testBit (15 - column) = false :=
      Nat.testBit_lt_two_pow (Nat.lt_of_lt_of_le byte.toNat_lt
        (Nat.pow_le_pow_right (by decide) (show 8 ≤ 15 - column by omega)))
    rw [if_pos hLeft, hAbove, decide_eq_true (by omega), Bool.and_true, Bool.or_false]
  · rw [if_neg hLeft, decide_eq_false (by omega), Bool.and_false, Bool.false_or,
      show 15 - column = 7 - (column - 8) by omega]

/-- The front of a word shows its first eight columns. -/
theorem byteBit_front_word (plane : UInt16) {column : Nat} (hColumn : column < 8) :
    byteBit (Plane.front plane) column = wordBit plane column := by
  simp only [byteBit, wordBit, Plane.front, UInt16.toNat_toUInt8, UInt16.toNat_shiftRight]
  rw [Nat.testBit_mod_two_pow, decide_eq_true (show 7 - column < 8 by omega), Bool.true_and]
  have hShift : (8 : UInt16).toNat % 16 = 8 := rfl
  rw [hShift, Nat.testBit_shiftRight, show 8 + (7 - column) = 15 - column by omega]

namespace ShiftRegister

theorem bitAt_eq (byte : UInt8) (column : Fin 8) :
    bitAt byte column = UInt8.ofNat (byteBit byte column.val).toNat := by
  have hColumn := column.isLt
  have hShift : (7 - column.val) % 2 ^ 8 % 8 = 7 - column.val := by omega
  rw [← UInt8.toNat_inj]
  simp only [bitAt, byteBit, UInt8.toNat_and, UInt8.toNat_shiftRight, UInt8.toNat_ofNat', hShift,
    UInt8.toNat_one, Nat.and_one_is_mod, Nat.shiftRight_eq_div_pow,
    Nat.testBit_eq_decide_div_mod_eq]
  rcases Nat.mod_two_eq_zero_or_one (byte.toNat / 2 ^ (7 - column.val)) with h | h
  · rw [h]
    rfl
  · rw [h]
    rfl

/-- The number of a pixel with two given bits. -/
def pixelOf (upper lower : Bool) : Nat :=
  2 * upper.toNat + lower.toNat

theorem pixelOf_lt (upper lower : Bool) : pixelOf upper lower < 4 := by
  cases upper <;> cases lower <;> decide

/-- A pixel has one bit from each plane. -/
theorem toNat_pixel {ω : Type} [Plane ω] (register : ShiftRegister ω) (column : Fin 8) :
    (register.pixel column).toNat = pixelOf (byteBit (Plane.front register.upper) column.val)
      (byteBit (Plane.front register.lower) column.val) := by
  rw [pixel, bitAt_eq, bitAt_eq]
  cases byteBit (Plane.front register.upper) column.val <;>
    cases byteBit (Plane.front register.lower) column.val <;> rfl

end ShiftRegister

end Nes.Ppu
