import Nes.Proofs.Ppu.Activity

/-! The raster as a line of numbered dots, and the time line that counts them over all pictures. -/

namespace Nes.Ppu

namespace Beam

/-- The number of a dot in its picture. -/
def position (beam : Beam) : Nat :=
  341 * beam.line.val + beam.dot.val

/-- The dots of a picture of which none is left out. -/
def dotsPerPicture : Nat := 89342

/-- The number of a dot on a time line on which every picture has all its dots. -/
def time (beam : Beam) : Nat :=
  dotsPerPicture * beam.frames.toNat + beam.position

variable (beam : Beam) (rendering : Bool)

/-- A picture has 89342 places. -/
theorem position_lt : beam.position < 89342 := by
  have hLine := beam.line.isLt
  have hDot := beam.dot.isLt
  simp only [position]
  omega

/-- The dot at a place of the raster is known by its number. -/
theorem at_iff_position {line dot : Nat} (hDot : dot < 341) :
    beam.At line dot ↔ beam.position = 341 * line + dot := by
  have hBeam := beam.dot.isLt
  simp only [At, position]
  omega

/-- A picture ends at its last dot, or one dot before it where that one is left out. -/
theorem position_of_endsFrame (hEnd : beam.EndsFrame rendering) :
    beam.position = if beam.SkipsDot rendering then 89340 else 89341 := by
  obtain ⟨hLine, hDot | hSkip⟩ := hEnd
  · have hNot : ¬ beam.SkipsDot rendering := fun hSkip => by
      have := hSkip.1.2
      omega
    rw [if_neg hNot]
    simp only [position]
    omega
  · rw [if_pos hSkip]
    have := hSkip.1.2
    simp only [position]
    omega

/-- Behind the end of a picture follows the first dot of the next one. -/
theorem next_of_endsFrame (hEnd : beam.EndsFrame rendering) :
    beam.next rendering =
      { line := 0, dot := 0, oddFrame := !beam.oddFrame, frames := beam.frames + 1 } := by
  rw [next, if_pos hEnd.2, if_pos hEnd.1]

/-- Inside a picture the dots are counted one by one. -/
theorem position_next_of_not_endsFrame (hInside : ¬ beam.EndsFrame rendering) :
    (beam.next rendering).position = beam.position + 1 := by
  have hDot := beam.dot.isLt
  have hLine := beam.line.isLt
  have hLast : beam.line.val = 261 → ¬ beam.EndsLine rendering := fun h hEnd =>
    hInside ⟨h, hEnd⟩
  simp only [next, position]
  split
  · rename_i hEnd
    have hNotLast : beam.line.val ≠ 261 := fun h => hLast h hEnd
    have hAtEnd : beam.dot.val = 340 := hEnd.resolve_right fun hSkip => hNotLast hSkip.1.1
    rw [if_neg hNotLast]
    have hNext : (beam.line + 1).val = beam.line.val + 1 := by
      rw [Fin.val_add, Fin.val_one]
      omega
    simp only [hNext, hAtEnd, Fin.val_zero]
    omega
  · rename_i hNotEnd
    have hNext : (beam.dot + 1).val = beam.dot.val + 1 := by
      have : beam.dot.val ≠ 340 := fun h => hNotEnd (Or.inl h)
      rw [Fin.val_add, Fin.val_one]
      omega
    simp only [hNext]
    omega

theorem frames_next_of_not_endsFrame (hInside : ¬ beam.EndsFrame rendering) :
    (beam.next rendering).frames = beam.frames := by
  simp only [next]
  split
  · rename_i hEnd
    rw [if_neg fun h => hInside ⟨h, hEnd⟩]
  · rfl

theorem oddFrame_next_of_not_endsFrame (hInside : ¬ beam.EndsFrame rendering) :
    (beam.next rendering).oddFrame = beam.oddFrame := by
  simp only [next]
  split
  · rename_i hEnd
    rw [if_neg fun h => hInside ⟨h, hEnd⟩]
  · rfl

/-- The number of the last dot of a picture. -/
def lastDot : Nat :=
  if beam.oddFrame && rendering then 89340 else 89341

/-- A picture ends at the last of its dots. -/
theorem endsFrame_iff (hInside : beam.position ≤ beam.lastDot rendering) :
    beam.EndsFrame rendering ↔ beam.position = beam.lastDot rendering := by
  constructor
  · intro hEnd
    have hPosition := beam.position_of_endsFrame _ hEnd
    rw [lastDot] at hInside ⊢
    split at hPosition
    · rename_i hSkip
      rw [hSkip.2.1, hSkip.2.2] at hInside ⊢
      exact hPosition
    · split at hInside
      · omega
      · rename_i hFull
        rw [if_neg hFull]
        exact hPosition
  · intro hLast
    have hLine := beam.line.isLt
    have hDot := beam.dot.isLt
    simp only [position] at hLast
    rw [lastDot] at hLast
    split at hLast
    · rename_i hShort
      rw [Bool.and_eq_true] at hShort
      have hPlace : beam.At preRenderLine 339 := by
        simp only [At, preRenderLine]
        omega
      exact ⟨hPlace.1, .inr ⟨hPlace, hShort⟩⟩
    · exact ⟨by omega, .inl (by omega)⟩

/-- How many dots there are before the one that starts a vertical blanking, on pictures that have
all their dots. -/
def dotsToBlank : Nat :=
  (82182 + dotsPerPicture - beam.position) % dotsPerPicture

/-- A dot brings the next vertical blanking nearer by one, and by one more at the end of a picture
that leaves one out. -/
theorem dotsToBlank_next :
    beam.dotsToBlank ≤ (beam.next rendering).dotsToBlank + 2 := by
  have hLt := beam.position_lt
  by_cases hEnd : beam.EndsFrame rendering
  · have hPosition := beam.position_of_endsFrame _ hEnd
    have hZero : (beam.next rendering).position = 0 := by
      rw [next_of_endsFrame _ _ hEnd]
      rfl
    simp only [dotsToBlank, dotsPerPicture, hZero]
    split at hPosition <;> omega
  · have hNext := beam.position_next_of_not_endsFrame _ hEnd
    simp only [dotsToBlank, dotsPerPicture, hNext]
    omega

end Beam

/-- Up to the last dot of a picture every dot moves the beam on by one. -/
theorem run_inside (ppu : Ppu) (memory : UInt16 → UInt8) (dots : Nat)
    (hInside : ppu.beam.position + dots ≤ ppu.beam.lastDot ppu.mask.rendering) :
    (ppu.run memory dots).beam.position = ppu.beam.position + dots ∧
      (ppu.run memory dots).beam.frames = ppu.beam.frames ∧
      (ppu.run memory dots).beam.oddFrame = ppu.beam.oddFrame ∧
      (ppu.run memory dots).mask = ppu.mask := by
  induction dots generalizing ppu with
  | zero => exact ⟨rfl, rfl, rfl, rfl⟩
  | succ dots ih =>
      have hNotEnd : ¬ ppu.beam.EndsFrame ppu.mask.rendering := by
        rw [Beam.endsFrame_iff _ _ (by omega)]
        omega
      have hPosition : (ppu.tick memory).beam.position = ppu.beam.position + 1 := by
        rw [beam_tick, Beam.position_next_of_not_endsFrame _ _ hNotEnd]
      have hFrames : (ppu.tick memory).beam.frames = ppu.beam.frames := by
        rw [beam_tick, Beam.frames_next_of_not_endsFrame _ _ hNotEnd]
      have hOdd : (ppu.tick memory).beam.oddFrame = ppu.beam.oddFrame := by
        rw [beam_tick, Beam.oddFrame_next_of_not_endsFrame _ _ hNotEnd]
      have hLast : (ppu.tick memory).beam.lastDot (ppu.tick memory).mask.rendering =
          ppu.beam.lastDot ppu.mask.rendering := by
        rw [Beam.lastDot, Beam.lastDot, hOdd, mask_tick]
      obtain ⟨hRunPosition, hRunFrames, hRunOdd, hRunMask⟩ := ih (ppu.tick memory) (by omega)
      rw [run_succ, hRunPosition, hRunFrames, hRunOdd, hRunMask, hFrames, hOdd, mask_tick]
      exact ⟨by omega, rfl, rfl, rfl⟩

/-- A run with one more dot at its end. -/
theorem run_succ_tick (ppu : Ppu) (memory : UInt16 → UInt8) (dots : Nat) :
    ppu.run memory (dots + 1) = (ppu.run memory dots).tick memory := by
  rw [run_add]
  rfl

/-- The last dot of a picture leads to the first one of the next. -/
theorem beam_run_end (ppu : Ppu) (memory : UInt16 → UInt8) {dots : Nat}
    (hEnd : ppu.beam.position + dots = ppu.beam.lastDot ppu.mask.rendering) :
    (ppu.run memory dots).beam.EndsFrame ppu.mask.rendering ∧
      (ppu.run memory (dots + 1)).beam =
        { line := 0, dot := 0, oddFrame := !ppu.beam.oddFrame, frames := ppu.beam.frames + 1 } := by
  obtain ⟨hPosition, hFrames, hOdd, hMask⟩ := run_inside ppu memory dots (Nat.le_of_eq hEnd)
  have hLast : (ppu.run memory dots).beam.lastDot ppu.mask.rendering =
      ppu.beam.lastDot ppu.mask.rendering := by
    rw [Beam.lastDot, Beam.lastDot, hOdd]
  have hEnds : (ppu.run memory dots).beam.EndsFrame ppu.mask.rendering := by
    rw [Beam.endsFrame_iff _ _ (by omega), hLast]
    omega
  refine ⟨hEnds, ?_⟩
  rw [run_succ_tick, beam_tick, hMask, Beam.next_of_endsFrame _ _ hEnds, hOdd, hFrames]

theorem frames_add_two (frames : UInt64) : frames ≠ frames + 2 ∧ frames + 1 ≠ frames + 2 := by
  have hOne : (1 : UInt64).toNat = 1 := rfl
  have hTwo : (2 : UInt64).toNat = 2 := rfl
  constructor
  · intro hSame
    have h := congrArg UInt64.toNat hSame
    rw [UInt64.toNat_add, hTwo] at h
    omega
  · intro hSame
    have h := congrArg UInt64.toNat hSame
    rw [UInt64.toNat_add, UInt64.toNat_add, hOne, hTwo] at h
    omega

/-- Two pictures that are completed one after the other, the first one of them under way. -/
theorem run_second_end {ppu : Ppu} (memory : UInt16 → UInt8) {before : Nat}
    (hBefore : ppu.beam.position + before = ppu.beam.lastDot ppu.mask.rendering) :
    let first := ppu.run memory (before + 1)
    let dots := before + 1 + (first.beam.lastDot first.mask.rendering + 1)
    (ppu.run memory dots).beam =
        { oddFrame := ppu.beam.oddFrame, frames := ppu.beam.frames + 2 } ∧
      ∀ earlier < dots, (ppu.run memory earlier).beam.frames ≠ ppu.beam.frames + 2 := by
  intro first dots
  obtain ⟨hNotYet, hNotFirst⟩ := frames_add_two ppu.beam.frames
  have hFirst : first.beam = { oddFrame := !ppu.beam.oddFrame, frames := ppu.beam.frames + 1 } :=
    (beam_run_end ppu memory hBefore).2
  have hPosition : first.beam.position = 0 := by
    rw [hFirst]
    rfl
  constructor
  · have hLast : first.beam.position + first.beam.lastDot first.mask.rendering =
        first.beam.lastDot first.mask.rendering := by rw [hPosition, Nat.zero_add]
    have hSecond := (beam_run_end first memory hLast).2
    rw [run_add, hSecond, hFirst, Bool.not_not, UInt64.add_assoc]
    rfl
  · intro earlier hEarlier
    by_cases hStill : earlier ≤ before
    · rw [(run_inside ppu memory earlier (by omega)).2.1]
      exact hNotYet
    · obtain ⟨later, hLater⟩ := Nat.exists_eq_add_of_le (Nat.lt_of_not_le hStill)
      have hInside := run_inside first memory later (by omega)
      rw [hLater, Nat.succ_eq_add_one, run_add, hInside.2.1, hFirst]
      exact hNotFirst

end Nes.Ppu
