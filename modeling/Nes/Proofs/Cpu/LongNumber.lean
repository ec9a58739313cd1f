import Mathlib.Data.Nat.Digits.Lemmas
import Nes.Cpu.Effect

/-! Numbers of several bytes. A program adds and subtracts them one byte after the other, from the
lowest to the highest one, and the carry is all that a place hands on to the next. -/

namespace Nes.Cpu

/-- The number that some bytes are, the lowest byte first. -/
def numberOf (bytes : List UInt8) : Nat :=
  Nat.ofDigits 256 (bytes.map UInt8.toNat)

/-- The number that some bytes are in two's complement, the lowest byte first. -/
def signedNumberOf (bytes : List UInt8) : Int :=
  (numberOf bytes : Int).bmod (256 ^ bytes.length)

/-- A number is among those that some bytes can be in two's complement. -/
def FitsSigned (bytes : Nat) (number : Int) : Prop :=
  -256 ^ bytes ≤ 2 * number ∧ 2 * number < 256 ^ bytes

/-- Works through the places of a number and gives the byte and the flags that the operation leaves
at each of them. A place finds the carry of the one before it. What other instructions have made of
the rest of the flags by then depends on how many places are still to come. -/
def inTurn {σ : Type} (operation : Flags → σ → UInt8 × Flags) (others : Nat → Flags) :
    Flags → List σ → List (UInt8 × Flags)
  | _, [] => []
  | flags, place :: places =>
    let result := operation { others places.length with carry := flags.carry } place
    result :: inTurn operation others result.2 places

def bytesOf (results : List (UInt8 × Flags)) : List UInt8 :=
  results.map Prod.fst

/-- The flags after some results, given those from before them. -/
def flagsAfter : Flags → List (UInt8 × Flags) → Flags
  | flags, [] => flags
  | _, result :: results => flagsAfter result.2 results

/-- The negative and the zero flag of a result are those of its byte. -/
def ShowsByte (result : UInt8 × Flags) : Prop :=
  result.2.negative = Flags.isNegative result.1 ∧ result.2.zero = (result.1 == 0)

/-- Adds the second byte of a place to the first one, which is in the accumulator. -/
def addPlace (flags : Flags) (place : UInt8 × UInt8) : UInt8 × Flags :=
  let registers := Registers.adc { a := place.1, flags } place.2
  (registers.a, registers.flags)

def subtractPlace (flags : Flags) (place : UInt8 × UInt8) : UInt8 × Flags :=
  let registers := Registers.sbc { a := place.1, flags } place.2
  (registers.a, registers.flags)

/-- A result without its decimal flag. -/
def withoutDecimal (result : UInt8 × Flags) : UInt8 × Flags :=
  (result.1, { result.2 with decimal := false })

section Numbers

@[simp] theorem numberOf_nil : numberOf [] = 0 := rfl

@[simp] theorem numberOf_cons (byte : UInt8) (bytes : List UInt8) :
    numberOf (byte :: bytes) = byte.toNat + 256 * numberOf bytes := by
  rw [numberOf, List.map_cons, Nat.ofDigits_cons]
  rfl

/-- A number is less than 256 to the number of its bytes. -/
theorem numberOf_lt (bytes : List UInt8) : numberOf bytes < 256 ^ bytes.length := by
  have hLt := Nat.ofDigits_lt_base_pow_length (b := 256) (l := bytes.map UInt8.toNat) (by decide)
    (fun digit hDigit => by
      obtain ⟨byte, -, rfl⟩ := List.mem_map.mp hDigit
      exact byte.toNat_lt)
  rwa [List.length_map] at hLt

/-- A number of at least one byte has an even range. -/
theorem exists_half_range {n : Nat} (hBytes : n ≠ 0) : ∃ half, 256 ^ n = 2 * half := by
  obtain ⟨m, rfl⟩ := Nat.exists_eq_succ_of_ne_zero hBytes
  exact ⟨128 * 256 ^ m, by rw [pow_succ]; omega⟩

/-- The number with a sign is the one without, or less by 256 to the number of its bytes. -/
theorem signedNumberOf_eq (bytes : List UInt8) :
    signedNumberOf bytes =
      if 2 * numberOf bytes < 256 ^ bytes.length then (numberOf bytes : Int)
      else numberOf bytes - 256 ^ bytes.length := by
  have hLt := numberOf_lt bytes
  have hMod : (numberOf bytes : Int) % ((256 ^ bytes.length : Nat) : Int) = numberOf bytes :=
    Int.emod_eq_of_lt (Int.natCast_nonneg _) (Int.ofNat_lt.mpr hLt)
  have hRange : ((256 ^ bytes.length : Nat) : Int) = 256 ^ bytes.length := by
    rw [Nat.cast_pow]
    rfl
  rw [signedNumberOf, Int.bmod_def, hMod]
  split <;> split <;> omega

theorem signedNumberOf_singleton (byte : UInt8) :
    signedNumberOf [byte] = if byte.toNat < 128 then (byte.toNat : Int) else byte.toNat - 256 := by
  have hNumber : numberOf [byte] = byte.toNat := rfl
  rw [signedNumberOf_eq, hNumber, List.length_singleton, pow_one, pow_one]
  split <;> split <;> omega

/-- Only the highest byte of a number tells its sign. -/
theorem signedNumberOf_cons (byte : UInt8) {bytes : List UInt8} (hBytes : bytes ≠ []) :
    signedNumberOf (byte :: bytes) = byte.toNat + 256 * signedNumberOf bytes := by
  obtain ⟨half, hHalf⟩ := exists_half_range (List.length_pos_iff.mpr hBytes).ne'
  have hRange : 256 ^ (byte :: bytes).length = 256 * (2 * half) := by
    rw [List.length_cons, pow_succ, hHalf, Nat.mul_comm]
  have hByte := byte.toNat_lt
  rw [signedNumberOf_eq, signedNumberOf_eq, numberOf_cons]
  have hInt : (256 : Int) ^ bytes.length = 2 * half := by exact_mod_cast hHalf
  have hIntCons : (256 : Int) ^ (byte :: bytes).length = 256 * (2 * half) := by
    exact_mod_cast hRange
  rw [hRange, hHalf, hInt, hIntCons]
  split <;> split <;> omega

/-- Below the highest byte, the bytes of a number do not decide whether it fits. -/
theorem fitsSigned_succ {n low : Nat} (hBytes : n ≠ 0) (hLow : low < 256) (number : Int) :
    FitsSigned (n + 1) (low + 256 * number) ↔ FitsSigned n number := by
  obtain ⟨half, hHalf⟩ := exists_half_range hBytes
  have hRange : (256 : Int) ^ n = 2 * half := by exact_mod_cast hHalf
  rw [FitsSigned, FitsSigned, pow_succ, hRange]
  omega

/-- The sign of a number is its highest bit. -/
theorem testBit_numberOf_cons (byte : UInt8) {bytes : List UInt8} (hBytes : bytes ≠ []) :
    (numberOf (byte :: bytes)).testBit (8 * (byte :: bytes).length - 1) =
      (numberOf bytes).testBit (8 * bytes.length - 1) := by
  have hPlace : 8 * (byte :: bytes).length - 1 = 8 * bytes.length - 1 + 8 := by
    have := List.length_pos_iff.mpr hBytes
    rw [List.length_cons]
    omega
  have hShift : numberOf (byte :: bytes) / 2 ^ 8 = numberOf bytes := by
    have := byte.toNat_lt
    rw [numberOf_cons]
    omega
  rw [hPlace, Nat.testBit_add, hShift]

end Numbers

section Turns

variable {σ : Type} {operation : Flags → σ → UInt8 × Flags} (others : Nat → Flags)

@[simp] theorem length_inTurn (flags : Flags) (places : List σ) :
    (inTurn operation others flags places).length = places.length := by
  induction places generalizing flags with
  | nil => rfl
  | cons place places ih => exact congrArg (· + 1) (ih _)

@[simp] theorem length_bytesOf_inTurn (flags : Flags) (places : List σ) :
    (bytesOf (inTurn operation others flags places)).length = places.length := by
  rw [bytesOf, List.length_map, length_inTurn]

/-- Of the flags before a calculation, it uses the carry. -/
theorem inTurn_congr {flags other : Flags} (hCarry : flags.carry = other.carry)
    (places : List σ) :
    inTurn operation others flags places = inTurn operation others other places := by
  cases places with
  | nil => rfl
  | cons place places => simp only [inTurn, hCarry]

/-- What an operation does at every place it does at the places of a number. -/
theorem forall_mem_inTurn {p : UInt8 × Flags → Prop}
    (hOperation : ∀ flags place, p (operation flags place)) (flags : Flags) (places : List σ) :
    ∀ result ∈ inTurn operation others flags places, p result := by
  induction places generalizing flags with
  | nil => exact fun _ hNone => absurd hNone List.not_mem_nil
  | cons place places ih =>
      exact List.forall_mem_cons.mpr ⟨hOperation _ place, ih _⟩

/-- If every result shows its byte, the negative flag after all of them is the highest bit of the
number. -/
theorem negative_flagsAfter {results : List (UInt8 × Flags)} (hResults : results ≠ [])
    (hShows : ∀ result ∈ results, ShowsByte result) (flags : Flags) :
    (flagsAfter flags results).negative =
      (numberOf (bytesOf results)).testBit (8 * results.length - 1) := by
  induction results generalizing flags with
  | nil => exact absurd rfl hResults
  | cons result results ih =>
      obtain ⟨hHere, hRest⟩ := List.forall_mem_cons.mp hShows
      cases results with
      | nil =>
          have hByte := result.1.toNat_lt
          have hNumber : numberOf (bytesOf [result]) = result.1.toNat := rfl
          rw [flagsAfter, flagsAfter, hHere.1, hNumber, Flags.isNegative,
            Nat.testBit_eq_decide_div_mod_eq, decide_eq_decide, UInt8.le_iff_toNat_le]
          show 128 ≤ result.1.toNat ↔ result.1.toNat / 128 % 2 = 1
          omega
      | cons next results =>
          have hBytes : bytesOf (next :: results) ≠ [] := List.cons_ne_nil _ _
          have hLength : (bytesOf (next :: results)).length = (next :: results).length :=
            List.length_map _
          have hHigher := testBit_numberOf_cons result.1 hBytes
          rw [List.length_cons, hLength] at hHigher
          rw [flagsAfter, ih (List.cons_ne_nil _ _) hRest result.2]
          exact hHigher.symm

/-- The flag for negative numbers is the uppermost bit of the whole number. -/
theorem negative_inTurn (hShows : ∀ flags place, ShowsByte (operation flags place))
    (flags : Flags) {places : List σ} (hPlaces : places ≠ []) :
    (flagsAfter flags (inTurn operation others flags places)).negative =
      (numberOf (bytesOf (inTurn operation others flags places))).testBit
        (8 * places.length - 1) := by
  have hResults : inTurn operation others flags places ≠ [] := by
    rw [← List.length_pos_iff, length_inTurn]
    exact List.length_pos_iff.mpr hPlaces
  rw [negative_flagsAfter hResults (forall_mem_inTurn others hShows flags places), length_inTurn]

end Turns

section Addition

theorem toNat_isNegative (value : UInt8) : Flags.isNegative value = decide (128 ≤ value.toNat) := by
  rw [Flags.isNegative, decide_eq_decide, UInt8.le_iff_toNat_le]
  rfl

/-- The sum of two bytes and the carry, with its own carry for a ninth bit. -/
theorem toNat_addWithCarry (flags : Flags) (a b : UInt8) :
    (addWithCarry flags a b).1.toNat + 256 * (addWithCarry flags a b).2.carry.toNat =
      a.toNat + b.toNat + flags.carry.toNat := by
  have hA := a.toNat_lt
  have hB := b.toNat_lt
  have hCarry := flags.carry.toNat_le
  simp only [addWithCarry, Flags.carry_ofResult, UInt8.toNat_ofNat']
  by_cases hSum : 256 ≤ a.toNat + b.toNat + flags.carry.toNat
  · rw [decide_eq_true hSum, Bool.toNat_true]
    omega
  · rw [decide_eq_false hSum, Bool.toNat_false]
    omega

/-- The overflow flag of a sum tells that it is not a byte in two's complement. -/
theorem overflow_addWithCarry (flags : Flags) (a b : UInt8) :
    (addWithCarry flags a b).2.overflow = true ↔
      ¬FitsSigned 1 (signedNumberOf [a] + signedNumberOf [b] + flags.carry.toNat) := by
  have hA := a.toNat_lt
  have hB := b.toNat_lt
  have hCarry := flags.carry.toNat_le
  simp only [addWithCarry, Flags.overflow_ofResult, toNat_isNegative, UInt8.toNat_ofNat',
    signedNumberOf_singleton, FitsSigned, Bool.and_eq_true, beq_iff_eq, bne_iff_ne, ne_eq,
    decide_eq_decide]
  split <;> split <;> omega

/-- One place of a sum. -/
theorem addPlace_eq (flags : Flags) (place : UInt8 × UInt8) :
    addPlace flags place = addWithCarry flags place.1 place.2 :=
  rfl

end Addition

section LongAddition

variable (others : Nat → Flags)

/-- Adding place by place is adding the numbers, with the carry of the last place on top. -/
theorem numberOf_add (flags : Flags) (places : List (UInt8 × UInt8)) :
    let results := inTurn addPlace others flags places
    numberOf (bytesOf results) + 256 ^ places.length * (flagsAfter flags results).carry.toNat =
      numberOf (places.map Prod.fst) + numberOf (places.map Prod.snd) + flags.carry.toNat := by
  induction places generalizing flags with
  | nil => simp [inTurn, flagsAfter, bytesOf]
  | cons place places ih =>
      let found : Flags := { others places.length with carry := flags.carry }
      have hPlace := toNat_addWithCarry found place.1 place.2
      have hRest := ih (addPlace found place).2
      simp only [inTurn, flagsAfter, bytesOf, List.map_cons, numberOf_cons, List.length_cons,
        pow_succ'] at hRest ⊢
      simp only [addPlace_eq, found, Nat.mul_assoc] at hPlace hRest ⊢
      omega

/-- The overflow flag after a calculation is that of the highest place. -/
theorem overflow_add (flags : Flags) {places : List (UInt8 × UInt8)} (hPlaces : places ≠ []) :
    (flagsAfter flags (inTurn addPlace others flags places)).overflow = true ↔
      ¬FitsSigned places.length (signedNumberOf (places.map Prod.fst) +
        signedNumberOf (places.map Prod.snd) + flags.carry.toNat) := by
  induction places generalizing flags with
  | nil => exact absurd rfl hPlaces
  | cons place places ih =>
      let found : Flags := { others places.length with carry := flags.carry }
      cases hHigher : places with
      | nil => exact overflow_addWithCarry _ place.1 place.2
      | cons next rest =>
          have hSome : places ≠ [] := hHigher ▸ List.cons_ne_nil _ _
          have hPlace := toNat_addWithCarry found place.1 place.2
          have hByte := (addWithCarry found place.1 place.2).1.toNat_lt
          have hNumber : signedNumberOf ((place :: places).map Prod.fst) +
              signedNumberOf ((place :: places).map Prod.snd) + flags.carry.toNat =
                (addWithCarry found place.1 place.2).1.toNat +
                  256 * (signedNumberOf (places.map Prod.fst) +
                    signedNumberOf (places.map Prod.snd) +
                    (addWithCarry found place.1 place.2).2.carry.toNat) := by
            rw [List.map_cons, List.map_cons,
              signedNumberOf_cons _ (mt List.map_eq_nil_iff.mp hSome),
              signedNumberOf_cons _ (mt List.map_eq_nil_iff.mp hSome)]
            simp only [found] at hPlace ⊢
            omega
          rw [← hHigher, hNumber, List.length_cons,
            fitsSigned_succ (List.length_pos_iff.mpr hSome).ne' hByte]
          exact ih (addPlace found place).2 hSome

/-- The decimal flag changes nothing but itself. -/
theorem inTurn_decimal (decimals : Nat → Bool) (flags : Flags) (places : List (UInt8 × UInt8)) :
    (inTurn addPlace (fun place => { others place with decimal := decimals place }) flags
        places).map withoutDecimal =
      (inTurn addPlace others flags places).map withoutDecimal := by
  induction places generalizing flags with
  | nil => rfl
  | cons place places ih =>
      let found : Flags := { others places.length with carry := flags.carry }
      let turned : Flags := { found with decimal := decimals places.length }
      -- the next place finds the carry, in which both calculations agree
      have hCarry : (addPlace turned place).2.carry = (addPlace found place).2.carry := rfl
      have hRest := ih (addPlace found place).2
      rw [← inTurn_congr _ hCarry] at hRest
      exact congrArg (List.cons _) hRest

/-- A place with the complement of its second byte. -/
def complemented (place : UInt8 × UInt8) : UInt8 × UInt8 :=
  (place.1, ~~~place.2)

/-- Subtracting a number place by place is adding its complement. -/
theorem inTurn_subtract (flags : Flags) (places : List (UInt8 × UInt8)) :
    inTurn subtractPlace others flags places =
      inTurn addPlace others flags (places.map complemented) := by
  induction places generalizing flags with
  | nil => rfl
  | cons place places ih =>
      simp only [List.map_cons, inTurn, List.length_map, ih]
      rfl

/-- A number and its complement add up to all ones. -/
theorem numberOf_complemented (places : List (UInt8 × UInt8)) :
    numberOf ((places.map complemented).map Prod.snd) + numberOf (places.map Prod.snd) + 1 =
      256 ^ places.length := by
  induction places with
  | nil => rfl
  | cons place places ih =>
      have hByte : (~~~place.2).toNat = 255 - place.2.toNat := UInt8.toNat_not _
      have hLt := place.2.toNat_lt
      simp only [List.map_cons, numberOf_cons, List.length_cons, pow_succ', ← ih, complemented,
        hByte]
      omega

/-- The complement of a number with a sign. -/
theorem signedNumberOf_complemented {places : List (UInt8 × UInt8)} (hPlaces : places ≠ []) :
    signedNumberOf ((places.map complemented).map Prod.snd) =
      -1 - signedNumberOf (places.map Prod.snd) := by
  obtain ⟨half, hHalf⟩ := exists_half_range (List.length_pos_iff.mpr hPlaces).ne'
  have hInt : (256 : Int) ^ places.length = 2 * half := by exact_mod_cast hHalf
  have hNumber := numberOf_complemented places
  rw [hHalf] at hNumber
  rw [signedNumberOf_eq, signedNumberOf_eq]
  simp only [List.length_map, hHalf, hInt]
  split <;> split <;> omega

/-- Subtracting place by place is subtracting the numbers, with a borrow on top. -/
theorem numberOf_subtract (flags : Flags) (places : List (UInt8 × UInt8)) :
    let results := inTurn subtractPlace others flags places
    numberOf (bytesOf results) + numberOf (places.map Prod.snd) + (!flags.carry).toNat +
        256 ^ places.length * (flagsAfter flags results).carry.toNat =
      numberOf (places.map Prod.fst) + 256 ^ places.length := by
  intro results
  have hSum := numberOf_add others flags (places.map complemented)
  have hComplement := numberOf_complemented places
  have hFirst : (places.map complemented).map Prod.fst = places.map Prod.fst := by
    rw [List.map_map]
    rfl
  have hBorrow : flags.carry.toNat + (!flags.carry).toNat = 1 := by cases flags.carry <;> rfl
  rw [← inTurn_subtract, hFirst, List.length_map] at hSum
  simp only [results]
  omega

/-- The bytes of a difference are its rest in their range, and the carry tells that it is not
negative. -/
theorem numberOf_subtract_mod (flags : Flags) (places : List (UInt8 × UInt8)) :
    let a := numberOf (places.map Prod.fst)
    let b := numberOf (places.map Prod.snd) + (!flags.carry).toNat
    let results := inTurn subtractPlace others flags places
    (numberOf (bytesOf results) : Int) = (a - b : Int) % 256 ^ places.length ∧
      ((flagsAfter flags results).carry = true ↔ b ≤ a) := by
  intro a b results
  have hExact : numberOf (bytesOf results) + b +
      256 ^ places.length * (flagsAfter flags results).carry.toNat = a + 256 ^ places.length := by
    rw [← Nat.add_assoc]
    exact numberOf_subtract others flags places
  have hRange : ((256 ^ places.length : Nat) : Int) = 256 ^ places.length := by
    rw [Nat.cast_pow]
    rfl
  have hLt : numberOf (bytesOf results) < 256 ^ places.length := by
    have h := numberOf_lt (bytesOf results)
    rwa [length_bytesOf_inTurn] at h
  rw [← hRange]
  cases hCarry : (flagsAfter flags results).carry with
  | true =>
      rw [hCarry, Bool.toNat_true, Nat.mul_one] at hExact
      have hDifference : (a - b : Int) = numberOf (bytesOf results) := by omega
      rw [hDifference, Int.emod_eq_of_lt (Int.natCast_nonneg _) (Int.ofNat_lt.mpr hLt)]
      exact ⟨rfl, iff_of_true rfl (by omega)⟩
  | false =>
      rw [hCarry, Bool.toNat_false, Nat.mul_zero, Nat.add_zero] at hExact
      have hDifference : (a - b : Int) =
          numberOf (bytesOf results) - ((256 ^ places.length : Nat) : Int) := by omega
      rw [hDifference, Int.sub_emod_right,
        Int.emod_eq_of_lt (Int.natCast_nonneg _) (Int.ofNat_lt.mpr hLt)]
      exact ⟨rfl, iff_of_false Bool.false_ne_true (by omega)⟩

/-- The overflow flag says that a difference does not fit. -/
theorem overflow_subtract (flags : Flags) {places : List (UInt8 × UInt8)} (hPlaces : places ≠ []) :
    (flagsAfter flags (inTurn subtractPlace others flags places)).overflow = true ↔
      ¬FitsSigned places.length (signedNumberOf (places.map Prod.fst) -
        signedNumberOf (places.map Prod.snd) - (!flags.carry).toNat) := by
  have hComplements : places.map complemented ≠ [] := mt List.map_eq_nil_iff.mp hPlaces
  have hSum := overflow_add others flags hComplements
  have hFirst : (places.map complemented).map Prod.fst = places.map Prod.fst := by
    rw [List.map_map]
    rfl
  have hNumber : signedNumberOf (places.map Prod.fst) +
      (-1 - signedNumberOf (places.map Prod.snd)) + flags.carry.toNat =
        signedNumberOf (places.map Prod.fst) - signedNumberOf (places.map Prod.snd) -
          (!flags.carry).toNat := by
    cases flags.carry <;> simp only [Bool.not_true, Bool.not_false, Bool.toNat_true,
      Bool.toNat_false] <;> omega
  rw [inTurn_subtract, hSum, hFirst, signedNumberOf_complemented hPlaces, List.length_map, hNumber]

/-- Long numbers are added and subtracted by their bytes. Whatever happens to the other flags on the
way, the bytes of a sum and the last carry are the sum of both numbers and the first carry, and the
bytes of a difference are the difference of both numbers and the borrow, which is a clear carry, in
the range of the bytes. The last carry is set if nothing had to be borrowed. The overflow flag tells
that the result in two's complement is out of range, and the negative flag is its highest bit. The
decimal flag makes no difference to any byte or any other flag. -/
theorem long_arithmetic (others : Nat → Flags) (flags : Flags) {places : List (UInt8 × UInt8)}
    (hPlaces : places ≠ []) :
    let n := places.length
    let a := places.map Prod.fst
    let b := places.map Prod.snd
    let carry : Nat := flags.carry.toNat
    let borrow : Nat := (!flags.carry).toNat
    let sum := inTurn addPlace others flags places
    let difference := inTurn subtractPlace others flags places
    (sum.length = n ∧
      numberOf (bytesOf sum) + 256 ^ n * (flagsAfter flags sum).carry.toNat =
        numberOf a + numberOf b + carry ∧
      ((flagsAfter flags sum).overflow = true ↔
        ¬FitsSigned n (signedNumberOf a + signedNumberOf b + carry)) ∧
      (flagsAfter flags sum).negative = (numberOf (bytesOf sum)).testBit (8 * n - 1)) ∧
    (difference.length = n ∧
      (numberOf (bytesOf difference) : Int) = (numberOf a - numberOf b - borrow) % 256 ^ n ∧
      ((flagsAfter flags difference).carry = true ↔ numberOf b + borrow ≤ numberOf a) ∧
      ((flagsAfter flags difference).overflow = true ↔
        ¬FitsSigned n (signedNumberOf a - signedNumberOf b - borrow)) ∧
      (flagsAfter flags difference).negative =
        (numberOf (bytesOf difference)).testBit (8 * n - 1)) ∧
    ∀ decimals : Nat → Bool,
      let turned place := { others place with decimal := decimals place }
      (inTurn addPlace turned flags places).map withoutDecimal = sum.map withoutDecimal ∧
      (inTurn subtractPlace turned flags places).map withoutDecimal =
        difference.map withoutDecimal := by
  intro n a b carry borrow sum difference
  obtain ⟨hRest, hCarry⟩ := numberOf_subtract_mod others flags places
  refine ⟨⟨length_inTurn others flags places, numberOf_add others flags places,
      overflow_add others flags hPlaces,
      negative_inTurn others (fun _ _ => ⟨rfl, rfl⟩) flags hPlaces⟩,
    ⟨length_inTurn others flags places, ?_, hCarry, overflow_subtract others flags hPlaces,
      negative_inTurn others (fun _ _ => ⟨rfl, rfl⟩) flags hPlaces⟩,
    fun decimals => ⟨inTurn_decimal others decimals flags places, ?_⟩⟩
  · rw [sub_sub]
    exact_mod_cast hRest
  · simp only [difference, inTurn_subtract]
    exact inTurn_decimal others decimals flags (places.map complemented)

/-- The places of `$7fff` and `$0001`. -/
def halfway : List (UInt8 × UInt8) :=
  [(0xff, 0x01), (0x7f, 0x00)]

/-- Two numbers with a carry through all their places. -/
theorem long_arithmetic_halfway :
    let sum := inTurn addPlace (fun _ => { decimal := true }) {} halfway
    let difference := inTurn subtractPlace (fun _ => { decimal := true }) {} halfway
    halfway ≠ [] ∧
    numberOf (bytesOf sum) = 0x8000 ∧
    ¬FitsSigned 2 (0x7fff + 0x0001) ∧ (flagsAfter {} sum).overflow = true ∧
    (flagsAfter {} sum).negative = true ∧
    numberOf (bytesOf difference) = 0x7ffd ∧ (flagsAfter {} difference).carry = true := by
  have hPlaces : halfway ≠ [] := List.cons_ne_nil _ _
  obtain ⟨⟨-, -, hOverflow, hNegative⟩, ⟨-, hDifference, hCarry, -⟩, -⟩ :=
    long_arithmetic (fun _ => { decimal := true }) {} hPlaces
  have hFirst : signedNumberOf (halfway.map Prod.fst) = 0x7fff := by decide
  have hSecond : signedNumberOf (halfway.map Prod.snd) = 0x0001 := by decide
  have hOut : ¬FitsSigned 2 (0x7fff + 0x0001) := by
    rintro ⟨-, hAbove⟩
    exact absurd hAbove (by decide)
  rw [hFirst, hSecond] at hOverflow
  have hNumber : numberOf (bytesOf (inTurn addPlace (fun _ => { decimal := true }) {} halfway)) =
      0x8000 := by decide
  rw [hNumber] at hNegative
  exact ⟨hPlaces, hNumber, hOut, hOverflow.mpr hOut, hNegative.trans (by decide),
    Int.ofNat_inj.mp (hDifference.trans (by decide)), hCarry.mpr (by decide)⟩

end LongAddition

end Nes.Cpu
