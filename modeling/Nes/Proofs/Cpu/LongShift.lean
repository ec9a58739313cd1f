import Nes.Proofs.Cpu.LongNumber

/-! Numbers of several bytes that are shifted by one bit. To the left this is done from the lowest
byte on and to the right from the highest one on, and the carry is the bit between two bytes. -/

namespace Nes.Cpu

/-- Works through the places of a number like `inTurn`, but with an operation of its own at the
place that comes first. -/
def startingWith {σ : Type} (first next : Flags → σ → UInt8 × Flags) (others : Nat → Flags) :
    Flags → List σ → List (UInt8 × Flags)
  | _, [] => []
  | flags, place :: places =>
    let result := first { others places.length with carry := flags.carry } place
    result :: inTurn next others result.2 places

section Numbers

theorem numberOf_concat (bytes : List UInt8) (byte : UInt8) :
    numberOf (bytes ++ [byte]) = numberOf bytes + 256 ^ bytes.length * byte.toNat := by
  rw [numberOf, List.map_append, Nat.ofDigits_append, List.length_map]
  rfl

/-- Numbers of the same length differ in their bytes. -/
theorem numberOf_inj {bytes other : List UInt8} (hLength : bytes.length = other.length)
    (hNumber : numberOf bytes = numberOf other) : bytes = other := by
  induction bytes generalizing other with
  | nil => exact (List.length_eq_zero_iff.mp hLength.symm).symm
  | cons byte bytes ih =>
      cases other with
      | nil => cases hLength
      | cons otherByte otherBytes =>
          have hByte := byte.toNat_lt
          have hOther := otherByte.toNat_lt
          rw [numberOf_cons, numberOf_cons] at hNumber
          rw [UInt8.toNat_inj.mp (show byte.toNat = otherByte.toNat by omega),
            ih (Nat.succ.inj hLength) (by omega)]

end Numbers

section Bytes

/-- A rotation to the left doubles a byte, with the carry at both ends. -/
theorem toNat_rotateLeft (flags : Flags) (value : UInt8) :
    (rotateLeft flags value).1.toNat + 256 * (rotateLeft flags value).2.carry.toNat =
      2 * value.toNat + flags.carry.toNat := by
  have hValue := value.toNat_lt
  have hCarry := flags.carry.toNat_le
  simp only [rotateLeft, Flags.carry_ofResult, UInt8.toNat_ofNat', toNat_isNegative]
  by_cases hHigh : 128 ≤ value.toNat
  · rw [decide_eq_true hHigh, Bool.toNat_true]
    omega
  · rw [decide_eq_false hHigh, Bool.toNat_false]
    omega

/-- A rotation to the right halves a byte, with the carry at both ends. -/
theorem toNat_rotateRight (flags : Flags) (value : UInt8) :
    2 * (rotateRight flags value).1.toNat + (rotateRight flags value).2.carry.toNat =
      value.toNat + 256 * flags.carry.toNat := by
  have hValue := value.toNat_lt
  have hCarry := flags.carry.toNat_le
  simp only [rotateRight, Flags.carry_ofResult, UInt8.toNat_ofNat']
  by_cases hLow : value.toNat % 2 = 1
  · rw [decide_eq_true hLow, Bool.toNat_true]
    omega
  · rw [decide_eq_false hLow, Bool.toNat_false]
    omega

/-- A shift is a rotation that finds the carry clear. -/
theorem shiftLeft_eq (flags : Flags) (value : UInt8) :
    shiftLeft flags value = rotateLeft { flags with carry := false } value :=
  rfl

/-- A shift to the right is a rotation of a byte with a clear carry. -/
theorem shiftRight_eq (flags : Flags) (value : UInt8) :
    shiftRight flags value = rotateRight { flags with carry := false } value := by
  simp only [shiftRight, rotateRight, Bool.toNat_false, Nat.mul_zero, Nat.zero_add]

end Bytes

section Shifts

variable (others : Nat → Flags)

/-- A calculation that starts with a shift is one with rotations that finds the carry clear. -/
theorem startingWith_eq {shift rotate : Flags → UInt8 → UInt8 × Flags}
    (hShift : ∀ flags value, shift flags value = rotate { flags with carry := false } value)
    (flags : Flags) (bytes : List UInt8) :
    startingWith shift rotate others flags bytes =
      inTurn rotate others { flags with carry := false } bytes := by
  cases bytes with
  | nil => rfl
  | cons byte bytes => simp only [startingWith, inTurn, hShift]

/-- A chain that starts with a shift is a chain of rotations with a clear carry in front. -/
theorem flagsAfter_startingWith {shift rotate : Flags → UInt8 → UInt8 × Flags}
    (hShift : ∀ flags value, shift flags value = rotate { flags with carry := false } value)
    (flags : Flags) {bytes : List UInt8} (hBytes : bytes ≠ []) :
    flagsAfter flags (startingWith shift rotate others flags bytes) =
      flagsAfter { flags with carry := false }
        (inTurn rotate others { flags with carry := false } bytes) := by
  rw [startingWith_eq others hShift]
  cases bytes with
  | nil => exact absurd rfl hBytes
  | cons byte bytes => rfl

/-- Rotating place by place to the left doubles the number. -/
theorem numberOf_rotateLeft (flags : Flags) (bytes : List UInt8) :
    let results := inTurn rotateLeft others flags bytes
    numberOf (bytesOf results) + 256 ^ bytes.length * (flagsAfter flags results).carry.toNat =
      2 * numberOf bytes + flags.carry.toNat := by
  induction bytes generalizing flags with
  | nil => simp [inTurn, flagsAfter, bytesOf]
  | cons byte bytes ih =>
      let found : Flags := { others bytes.length with carry := flags.carry }
      have hByte := toNat_rotateLeft found byte
      have hRest := ih (rotateLeft found byte).2
      simp only [inTurn, flagsAfter, bytesOf, List.map_cons, numberOf_cons, List.length_cons,
        pow_succ', found, Nat.mul_assoc] at hByte hRest ⊢
      omega

/-- The bytes come from the highest one on. -/
theorem numberOf_rotateRight (flags : Flags) (bytes : List UInt8) :
    let results := inTurn rotateRight others flags bytes
    2 * numberOf (bytesOf results).reverse + (flagsAfter flags results).carry.toNat =
      numberOf bytes.reverse + 256 ^ bytes.length * flags.carry.toNat := by
  induction bytes generalizing flags with
  | nil => simp [inTurn, flagsAfter, bytesOf]
  | cons byte bytes ih =>
      let found : Flags := { others bytes.length with carry := flags.carry }
      let result := rotateRight found byte
      let rest := inTurn rotateRight others result.2 bytes
      have hByte : 2 * result.1.toNat + result.2.carry.toNat =
          byte.toNat + 256 * flags.carry.toNat := toNat_rotateRight found byte
      have hRest : 2 * numberOf (bytesOf rest).reverse + (flagsAfter result.2 rest).carry.toNat =
          numberOf bytes.reverse + 256 ^ bytes.length * result.2.carry.toNat := ih result.2
      have hBytes : (bytesOf (result :: rest)).reverse = (bytesOf rest).reverse ++ [result.1] :=
        List.reverse_cons
      have hLength : (bytesOf rest).reverse.length = bytes.length := by
        rw [List.length_reverse, length_bytesOf_inTurn]
      change 2 * numberOf (bytesOf (result :: rest)).reverse +
        (flagsAfter result.2 rest).carry.toNat = numberOf (byte :: bytes).reverse + _
      rw [hBytes, List.reverse_cons, numberOf_concat, numberOf_concat, hLength, List.length_reverse,
        List.length_cons, pow_succ]
      calc 2 * (numberOf (bytesOf rest).reverse + 256 ^ bytes.length * result.1.toNat) +
            (flagsAfter result.2 rest).carry.toNat
          = numberOf bytes.reverse +
              256 ^ bytes.length * (2 * result.1.toNat + result.2.carry.toNat) := by linarith
        _ = numberOf bytes.reverse + 256 ^ bytes.length * byte.toNat +
              256 ^ bytes.length * 256 * flags.carry.toNat := by
            rw [hByte]
            ring

/-- Shifting place by place to the left doubles the number. -/
theorem numberOf_shiftLeft (flags : Flags) {bytes : List UInt8} (hBytes : bytes ≠ []) :
    let results := startingWith shiftLeft rotateLeft others flags bytes
    numberOf (bytesOf results) + 256 ^ bytes.length * (flagsAfter flags results).carry.toNat =
      2 * numberOf bytes := by
  intro results
  have hRotated := numberOf_rotateLeft others { flags with carry := false } bytes
  have hAfter := flagsAfter_startingWith others shiftLeft_eq flags hBytes
  simp only [results]
  rw [hAfter, startingWith_eq others shiftLeft_eq]
  exact hRotated

/-- Shifting place by place to the right halves the number. -/
theorem numberOf_shiftRight (flags : Flags) {bytes : List UInt8} (hBytes : bytes ≠ []) :
    let results := startingWith shiftRight rotateRight others flags bytes
    2 * numberOf (bytesOf results).reverse + (flagsAfter flags results).carry.toNat =
      numberOf bytes.reverse := by
  intro results
  have hRotated := numberOf_rotateRight others { flags with carry := false } bytes
  have hAfter := flagsAfter_startingWith others shiftRight_eq flags hBytes
  simp only [results]
  rw [hAfter, startingWith_eq others shiftRight_eq]
  exact hRotated

/-- A rotation to the right takes one to the left back and leaves the carry from before both. -/
theorem rotateRight_rotateLeft (later : Nat → Flags) (flags : Flags) (bytes : List UInt8) :
    let left := inTurn rotateLeft others flags bytes
    let back := inTurn rotateRight later (flagsAfter flags left) (bytesOf left).reverse
    (bytesOf back).reverse = bytes ∧
      (flagsAfter (flagsAfter flags left) back).carry = flags.carry := by
  intro left back
  have hLeft : numberOf (bytesOf left) +
      256 ^ bytes.length * (flagsAfter flags left).carry.toNat =
        2 * numberOf bytes + flags.carry.toNat :=
    numberOf_rotateLeft others flags bytes
  have hBack : 2 * numberOf (bytesOf back).reverse +
      (flagsAfter (flagsAfter flags left) back).carry.toNat =
        2 * numberOf bytes + flags.carry.toNat := by
    have h := numberOf_rotateRight later (flagsAfter flags left) (bytesOf left).reverse
    rwa [List.reverse_reverse, List.length_reverse, length_bytesOf_inTurn, hLeft] at h
  have hLength : (bytesOf back).reverse.length = bytes.length := by
    rw [List.length_reverse, length_bytesOf_inTurn, List.length_reverse, length_bytesOf_inTurn]
  have hBefore := flags.carry.toNat_le
  have hAfter := (flagsAfter (flagsAfter flags left) back).carry.toNat_le
  have hCarry : (flagsAfter (flagsAfter flags left) back).carry.toNat = flags.carry.toNat := by
    omega
  refine ⟨numberOf_inj hLength (by omega), ?_⟩
  rw [← Bool.ofNat_toNat flags.carry, ← hCarry, Bool.ofNat_toNat]

/-- A rotation to the left takes one to the right back and leaves the carry from before both. -/
theorem rotateLeft_rotateRight (later : Nat → Flags) (flags : Flags) (bytes : List UInt8) :
    let right := inTurn rotateRight others flags bytes.reverse
    let back := inTurn rotateLeft later (flagsAfter flags right) (bytesOf right).reverse
    bytesOf back = bytes ∧ (flagsAfter (flagsAfter flags right) back).carry = flags.carry := by
  intro right back
  have hRight : 2 * numberOf (bytesOf right).reverse + (flagsAfter flags right).carry.toNat =
      numberOf bytes + 256 ^ bytes.length * flags.carry.toNat := by
    have h := numberOf_rotateRight others flags bytes.reverse
    rwa [List.reverse_reverse, List.length_reverse] at h
  have hBack : numberOf (bytesOf back) +
      256 ^ bytes.length * (flagsAfter (flagsAfter flags right) back).carry.toNat =
        numberOf bytes + 256 ^ bytes.length * flags.carry.toNat := by
    have h := numberOf_rotateLeft later (flagsAfter flags right) (bytesOf right).reverse
    rwa [List.length_reverse, length_bytesOf_inTurn, List.length_reverse, hRight] at h
  have hLength : (bytesOf back).length = bytes.length := by
    rw [length_bytesOf_inTurn, List.length_reverse, length_bytesOf_inTurn, List.length_reverse]
  have hLt := numberOf_lt bytes
  have hBackLt := numberOf_lt (bytesOf back)
  rw [hLength] at hBackLt
  have hCarry : (flagsAfter (flagsAfter flags right) back).carry = flags.carry := by
    cases hBefore : flags.carry <;>
      cases hAfter : (flagsAfter (flagsAfter flags right) back).carry <;>
      simp only [hBefore, hAfter, Bool.toNat_true, Bool.toNat_false] at hBack ⊢ <;> omega
  rw [hCarry] at hBack
  exact ⟨numberOf_inj hLength (by omega), hCarry⟩

/-- Long numbers are shifted by their bytes. Whatever happens to the other flags on the way, a
rotation to the left from the lowest byte on doubles the number and takes the carry in below it, and
one to the right from the highest byte on halves it and takes the carry in above it; the bit that
leaves the number is the last carry. Starting with a shift takes in a clear bit. So a rotation takes
one in the other direction back, with the carry. At every byte the negative and the zero flag are
those of the byte that was made. -/
theorem long_shifts (others later : Nat → Flags) (flags : Flags) {bytes : List UInt8}
    (hBytes : bytes ≠ []) :
    let n := bytes.length
    let carry : Nat := flags.carry.toNat
    let carryOf results : Nat := (flagsAfter flags results).carry.toNat
    let left := inTurn rotateLeft others flags bytes
    let leftFresh := startingWith shiftLeft rotateLeft others flags bytes
    let right := inTurn rotateRight others flags bytes.reverse
    let rightFresh := startingWith shiftRight rotateRight others flags bytes.reverse
    let leftBack := inTurn rotateRight later (flagsAfter flags left) (bytesOf left).reverse
    let rightBack := inTurn rotateLeft later (flagsAfter flags right) (bytesOf right).reverse
    numberOf (bytesOf left) + 256 ^ n * carryOf left = 2 * numberOf bytes + carry ∧
    numberOf (bytesOf leftFresh) + 256 ^ n * carryOf leftFresh = 2 * numberOf bytes ∧
    2 * numberOf (bytesOf right).reverse + carryOf right = numberOf bytes + 256 ^ n * carry ∧
    2 * numberOf (bytesOf rightFresh).reverse + carryOf rightFresh = numberOf bytes ∧
    ((bytesOf leftBack).reverse = bytes ∧
      (flagsAfter (flagsAfter flags left) leftBack).carry = flags.carry) ∧
    (bytesOf rightBack = bytes ∧
      (flagsAfter (flagsAfter flags right) rightBack).carry = flags.carry) ∧
    ∀ result ∈ left ++ leftFresh ++ right ++ rightFresh, ShowsByte result := by
  intro n carry carryOf left leftFresh right rightFresh leftBack rightBack
  have hReversed : bytes.reverse ≠ [] := mt List.reverse_eq_nil_iff.mp hBytes
  refine ⟨numberOf_rotateLeft others flags bytes, numberOf_shiftLeft others flags hBytes, ?_, ?_,
    rotateRight_rotateLeft others later flags bytes,
    rotateLeft_rotateRight others later flags bytes, ?_⟩
  · have h := numberOf_rotateRight others flags bytes.reverse
    rwa [List.reverse_reverse, List.length_reverse] at h
  · have h := numberOf_shiftRight others flags hReversed
    rwa [List.reverse_reverse] at h
  · simp only [leftFresh, rightFresh, startingWith_eq others shiftLeft_eq,
      startingWith_eq others shiftRight_eq, List.forall_mem_append]
    have hLeft (flags : Flags) (value : UInt8) : ShowsByte (rotateLeft flags value) := ⟨rfl, rfl⟩
    have hRight (flags : Flags) (value : UInt8) : ShowsByte (rotateRight flags value) := ⟨rfl, rfl⟩
    exact ⟨⟨⟨forall_mem_inTurn others hLeft _ _, forall_mem_inTurn others hLeft _ _⟩,
      forall_mem_inTurn others hRight _ _⟩, forall_mem_inTurn others hRight _ _⟩

/-- The bytes of `$8100` and a carry, shifted in both directions. -/
theorem long_shifts_both_ends :
    let flags : Flags := { carry := true }
    let left := inTurn rotateLeft (fun _ => {}) flags [0x00, 0x81]
    let right := inTurn rotateRight (fun _ => {}) flags [0x81, 0x00]
    ([0x00, 0x81] : List UInt8) ≠ [] ∧
    numberOf (bytesOf left) + 0x10000 * (flagsAfter flags left).carry.toNat = 2 * 0x8100 + 1 ∧
    2 * numberOf (bytesOf right).reverse + (flagsAfter flags right).carry.toNat =
      0x8100 + 0x10000 ∧
    bytesOf left = [0x01, 0x02] ∧ (bytesOf right).reverse = [0x80, 0xc0] := by
  have hBytes : ([0x00, 0x81] : List UInt8) ≠ [] := List.cons_ne_nil _ _
  obtain ⟨hLeft, -, hRight, -⟩ := long_shifts (fun _ => {}) (fun _ => {}) { carry := true } hBytes
  exact ⟨hBytes, hLeft, hRight, by decide, by decide⟩

end Shifts

end Nes.Cpu
