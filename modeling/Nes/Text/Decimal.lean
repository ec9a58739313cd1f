/-! Decimal numerals: padding a number to a width, and reading a text that consists of digits
only. -/

namespace Nes.Decimal

/-- The numeral of a number, with leading zeros up to the given width. -/
def padded (width n : Nat) : String :=
  let digits := Nat.toDigits 10 n
  String.ofList (List.replicate (width - digits.length) '0' ++ digits)

/-- The value of one ASCII digit. -/
def digit? (c : Char) : Option Nat :=
  if '0' ≤ c ∧ c ≤ '9' then some (c.toNat - '0'.toNat) else none

/-- Continues a numeral whose value so far is `value`. Every further character has to be a digit. -/
def readFrom (value : Nat) : List Char → Option Nat
  | [] => some value
  | c :: rest =>
    match digit? c with
    | some d => readFrom (10 * value + d) rest
    | none => none

/-- The value of a text of at least one digit and nothing else. Leading zeros are allowed. -/
def nat? : List Char → Option Nat
  | [] => none
  | c :: rest => readFrom 0 (c :: rest)

/-- The value of a text of digits that may start with a minus sign. -/
def int? : List Char → Option Int
  | '-' :: rest => (nat? rest).map fun n => -(n : Int)
  | text => (nat? text).map fun n => (n : Int)

end Nes.Decimal
