/-! Hexadecimal digits of a fixed width, in both letter cases. -/

namespace Nes.Hex

/-- The digit of a number below sixteen, with capital letters. -/
def upperDigit (n : Nat) : Char :=
  Char.ofNat (if n < 10 then 48 + n else 55 + n)

/-- The digit of a number below sixteen, with small letters. -/
def lowerDigit (n : Nat) : Char :=
  Char.ofNat (if n < 10 then 48 + n else 87 + n)

/-- The lowest `width` hexadecimal digits of a number, the highest of them first. -/
def digits (digit : Nat → Char) : (width : Nat) → (n : Nat) → List Char
  | 0, _ => []
  | width + 1, n => digits digit width (n / 16) ++ [digit (n % 16)]

@[simp] theorem length_digits (digit : Nat → Char) (width n : Nat) :
    (digits digit width n).length = width := by
  induction width generalizing n with
  | zero => rfl
  | succ width ih => simp [digits, ih]

/-- A byte as two digits with capital letters. -/
def byte (b : UInt8) : List Char :=
  digits upperDigit 2 b.toNat

def word (w : UInt16) : List Char :=
  digits upperDigit 4 w.toNat

/-- A byte as two digits with small letters. -/
def lowerByte (b : UInt8) : List Char :=
  digits lowerDigit 2 b.toNat

@[simp] theorem length_byte (b : UInt8) : (byte b).length = 2 :=
  length_digits upperDigit 2 b.toNat

@[simp] theorem length_word (w : UInt16) : (word w).length = 4 :=
  length_digits upperDigit 4 w.toNat

end Nes.Hex
