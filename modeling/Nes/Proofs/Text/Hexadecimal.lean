import Mathlib.Algebra.Ring.Nat
import Nes.Text.Hex

/-! Reading hexadecimal digits with capital letters. The digits of a number give it back if there
are enough of them. -/

namespace Nes.Hex

def digitValue? (c : Char) : Option Nat :=
  if c.isDigit then some (c.toNat - 48)
  else if 'A' ≤ c ∧ c ≤ 'F' then some (c.toNat - 55)
  else none

/-- The number with the given digits. -/
def value? (text : List Char) : Option Nat :=
  text.foldlM (fun value c => (digitValue? c).map (16 * value + ·)) 0

def byte? (text : List Char) : Option UInt8 :=
  (value? text).map .ofNat

def word? (text : List Char) : Option UInt16 :=
  (value? text).map .ofNat

/-- A digit that was written is read back. -/
theorem digitValue?_upperDigit {n : Nat} (hDigit : n < 16) :
    digitValue? (upperDigit n) = some n := by
  have hAll : ∀ n : Fin 16, digitValue? (upperDigit n.val) = some n.val := by decide
  exact hAll ⟨n, hDigit⟩

/-- A number that was written is read back, as far as its digits reach. -/
theorem value?_digits (width n : Nat) :
    value? (digits upperDigit width n) = some (n % 16 ^ width) := by
  induction width generalizing n with
  | zero => simp [value?, digits, Nat.mod_one]
  | succ width ih =>
      have hNumber : n % 16 ^ (width + 1) = 16 * (n / 16 % 16 ^ width) + n % 16 := by
        rw [Nat.pow_succ, Nat.mul_comm, Nat.mod_mul, Nat.add_comm]
      have hFront := ih (n / 16)
      rw [value?] at hFront
      rw [value?, digits, List.foldlM_append, hFront, hNumber]
      simp [digitValue?_upperDigit (Nat.mod_lt n (show 0 < 16 by decide))]

/-- A byte that was written is read back. -/
theorem byte?_byte (b : UInt8) : byte? (byte b) = some b := by
  have hSmall : b.toNat < 16 ^ 2 := b.toNat_lt
  rw [byte?, byte, value?_digits, Nat.mod_eq_of_lt hSmall, Option.map_some, UInt8.ofNat_toNat]

theorem word?_word (w : UInt16) : word? (word w) = some w := by
  have hSmall : w.toNat < 16 ^ 4 := w.toNat_lt
  rw [word?, word, value?_digits, Nat.mod_eq_of_lt hSmall, Option.map_some, UInt16.ofNat_toNat]

end Nes.Hex
