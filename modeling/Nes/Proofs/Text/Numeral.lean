import Mathlib.Data.Nat.Digits.Defs
import Nes.Text.Decimal

/-! What a decimal numeral is, and that reading a text finds the number of exactly the numerals. -/

namespace Nes.Decimal

def digitValue (c : Char) : Nat :=
  c.toNat - '0'.toNat

/-- A text is a numeral of a number: at least one digit, nothing but digits, and the last of them
counts ones. Zeros in front make no difference. -/
structure Denotes (text : List Char) (n : Nat) : Prop where
  nonempty : text ≠ []
  digits : ∀ c ∈ text, c.isDigit = true
  value : Nat.ofDigits 10 (text.reverse.map digitValue) = n

instance (text : List Char) (n : Nat) : Decidable (Denotes text n) :=
  decidable_of_iff (text ≠ [] ∧ text.all Char.isDigit = true ∧
      Nat.ofDigits 10 (text.reverse.map digitValue) = n)
    ⟨fun ⟨hNonempty, hDigits, hValue⟩ => ⟨hNonempty, List.all_eq_true.mp hDigits, hValue⟩,
      fun hDenotes =>
        ⟨hDenotes.nonempty, List.all_eq_true.mpr hDenotes.digits, hDenotes.value⟩⟩

/-- A text is a numeral of a number that may be negative, with a minus sign in front then. -/
inductive DenotesInt : List Char → Int → Prop where
  | unsigned {text : List Char} {n : Nat} (denotes : Denotes text n) : DenotesInt text n
  | negative {text : List Char} {n : Nat} (denotes : Denotes text n) :
      DenotesInt ('-' :: text) (-n)

theorem digit?_eq (c : Char) : digit? c = if c.isDigit then some (digitValue c) else none := by
  have hRange : ('0' ≤ c ∧ c ≤ '9') ↔ c.isDigit = true := by
    simp only [Char.isDigit, ge_iff_le, Bool.and_eq_true, decide_eq_true_eq]
    exact Iff.rfl
  simp only [digit?, hRange, digitValue]

/-- A numeral goes on with the digits that are left, each of which moves the others up. -/
theorem readFrom_eq_some_iff {text : List Char} {value n : Nat} :
    readFrom value text = some n ↔
      (∀ c ∈ text, c.isDigit = true) ∧
        Nat.ofDigits 10 (text.reverse.map digitValue) + 10 ^ text.length * value = n := by
  induction text generalizing value with
  | nil => simp [readFrom]
  | cons c rest ih =>
      cases hDigit : c.isDigit with
      | false => simp [readFrom, digit?_eq, hDigit]
      | true =>
          have hMoved : Nat.ofDigits 10 ((c :: rest).reverse.map digitValue) +
              10 ^ (c :: rest).length * value =
              Nat.ofDigits 10 (rest.reverse.map digitValue) +
                10 ^ rest.length * (10 * value + digitValue c) := by
            rw [List.reverse_cons, List.map_append, Nat.ofDigits_append, List.map_singleton,
              Nat.ofDigits_singleton, List.length_map, List.length_reverse, List.length_cons,
              Nat.pow_succ, Nat.mul_add, Nat.mul_assoc]
            omega
          rw [hMoved]
          simp [readFrom, digit?_eq, hDigit, ih]

/-- A text is read as a number exactly if it is a numeral for it. -/
theorem nat?_eq_some_iff {text : List Char} {n : Nat} : nat? text = some n ↔ Denotes text n := by
  cases text with
  | nil => exact iff_of_false (by simp [nat?]) fun hDenotes => hDenotes.nonempty rfl
  | cons c rest =>
      rw [nat?, readFrom_eq_some_iff, Nat.mul_zero, Nat.add_zero]
      exact ⟨fun hRead => ⟨List.cons_ne_nil c rest, hRead.1, hRead.2⟩,
        fun hDenotes => ⟨hDenotes.digits, hDenotes.value⟩⟩

/-- No numeral without a sign starts with one. -/
theorem Denotes.head?_ne {text : List Char} {n : Nat} (hDenotes : Denotes text n) :
    text.head? ≠ some '-' := by
  intro hSign
  have hDigit := hDenotes.digits '-' (List.mem_of_mem_head? hSign)
  exact absurd hDigit (by decide)

theorem int?_of_sign (rest : List Char) :
    int? ('-' :: rest) = (nat? rest).map fun n : Nat => -(n : Int) := by
  rw [int?]
  cases nat? rest <;> rfl

/-- A text without a sign is a numeral. -/
theorem int?_of_no_sign {text : List Char} (hSign : text.head? ≠ some '-') :
    int? text = (nat? text).map fun n : Nat => (n : Int) := by
  rw [int?.eq_2 text (by rintro rest rfl; exact hSign rfl)]
  cases nat? text <;> rfl

/-- A text is read as a number exactly if it is a numeral for it, maybe with a sign. -/
theorem int?_eq_some_iff {text : List Char} {n : Int} :
    int? text = some n ↔ DenotesInt text n := by
  by_cases hSign : text.head? = some '-'
  · obtain ⟨rest, rfl⟩ := List.head?_eq_some_iff.mp hSign
    rw [int?_of_sign, Option.map_eq_some_iff]
    constructor
    · rintro ⟨m, hRead, rfl⟩
      exact .negative (nat?_eq_some_iff.mp hRead)
    · intro hDenotes
      cases hDenotes with
      | unsigned hDenotes => exact absurd hSign hDenotes.head?_ne
      | negative hDenotes => exact ⟨_, nat?_eq_some_iff.mpr hDenotes, rfl⟩
  · rw [int?_of_no_sign hSign, Option.map_eq_some_iff]
    constructor
    · rintro ⟨m, hRead, rfl⟩
      exact .unsigned (nat?_eq_some_iff.mp hRead)
    · intro hDenotes
      cases hDenotes with
      | unsigned hDenotes => exact ⟨_, nat?_eq_some_iff.mpr hDenotes, rfl⟩
      | negative hDenotes => exact absurd rfl hSign

/-- A text is the numeral of at most one number. -/
theorem Denotes.unique {text : List Char} {m n : Nat} (hFirst : Denotes text m)
    (hSecond : Denotes text n) : m = n :=
  hFirst.value.symm.trans hSecond.value

/-- A text is a numeral for one number only. -/
theorem DenotesInt.unique {text : List Char} {m n : Int} (hFirst : DenotesInt text m)
    (hSecond : DenotesInt text n) : m = n :=
  Option.some.inj ((int?_eq_some_iff.mpr hFirst).symm.trans (int?_eq_some_iff.mpr hSecond))

/-- A number that is not negative has no sign. -/
theorem DenotesInt.of_pos {text : List Char} {n : Int} (hDenotes : DenotesInt text n)
    (hPos : 0 < n) : Denotes text n.toNat := by
  cases hDenotes with
  | unsigned hDenotes => exact hDenotes
  | negative hDenotes => omega

end Nes.Decimal
