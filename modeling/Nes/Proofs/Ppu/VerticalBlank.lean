import Nes.Proofs.Ppu.Raster

/-! The flag of vertical blanking: which actions change it, and where in the raster it can be
set. -/

namespace Nes.Ppu

namespace Moment

/-- The dot that starts a vertical blanking. -/
def startsBlank (moment : Moment) : Bool :=
  moment.isDotAt Beam.verticalBlankLine 1

theorem startsBlank_dot (ppu : Ppu) (memory : UInt16 → UInt8) :
    (Moment.mk ppu (.dot memory)).startsBlank = decide (ppu.beam.At Beam.verticalBlankLine 1) := by
  simp only [startsBlank, isDotAt, Action.isDot, Bool.true_and]

end Moment

/-- Without a new vertical blanking no action sets the flag. -/
theorem verticalBlank_of_apply {ppu : Ppu} {action : Action}
    (hStart : (Moment.mk ppu action).startsBlank = false)
    (hAfter : (ppu.apply action).status.verticalBlank = true) :
    ppu.status.verticalBlank = true := by
  cases action with
  | dot memory =>
      rw [Moment.startsBlank_dot, decide_eq_false_iff_not] at hStart
      rw [apply, verticalBlank_tick, if_neg hStart] at hAfter
      split at hAfter
      · exact absurd hAfter Bool.false_ne_true
      · exact hAfter
  | read memory register =>
      rw [apply, verticalBlank_read, Bool.and_eq_true] at hAfter
      exact hAfter.1
  | write register value => rwa [apply, status_write] at hAfter
  | poll => exact hAfter

/-- The flag of vertical blanking is only set between the dot behind the one that sets it and the
dot that clears it. -/
def BlankInWindow (ppu : Ppu) : Prop :=
  ppu.status.verticalBlank = true → 82183 ≤ ppu.beam.position ∧ ppu.beam.position ≤ 89002

theorem blankInWindow_powerOn : BlankInWindow {} := fun h => absurd h Bool.false_ne_true

/-- No action leaves the flag set outside its window. -/
theorem blankInWindow_apply (ppu : Ppu) (action : Action) (hWindow : BlankInWindow ppu) :
    BlankInWindow (ppu.apply action) := by
  intro hAfter
  cases action with
  | dot memory =>
      have hInside (h : ppu.beam.position ≤ 89002) :
          ¬ ppu.beam.EndsFrame ppu.mask.rendering := fun hEnd => by
        have := ppu.beam.position_of_endsFrame _ hEnd
        split at this <;> omega
      rw [apply, verticalBlank_tick] at hAfter
      rw [apply, beam_tick]
      split at hAfter
      · rename_i hStart
        rw [Beam.at_iff_position _ (by decide)] at hStart
        simp only [Beam.verticalBlankLine] at hStart
        rw [Beam.position_next_of_not_endsFrame _ _ (hInside (by omega))]
        omega
      · split at hAfter
        · exact absurd hAfter Bool.false_ne_true
        · rename_i hNotClear
          rw [Beam.at_iff_position _ (by decide)] at hNotClear
          simp only [Beam.preRenderLine] at hNotClear
          have := hWindow hAfter
          rw [Beam.position_next_of_not_endsFrame _ _ (hInside (by omega))]
          omega
  | read memory register =>
      rw [apply, verticalBlank_read, Bool.and_eq_true] at hAfter
      rw [apply, beam_read]
      exact hWindow hAfter.1
  | write register value =>
      rw [apply, status_write] at hAfter
      rw [apply, beam_write]
      exact hWindow hAfter
  | poll => exact hWindow hAfter

/-- The flag stays clear until the next vertical blanking. -/
theorem verticalBlank_eq_false_of_no_start {ppu : Ppu} {actions : List Action}
    (hClear : ppu.status.verticalBlank = false)
    (hStarts : ∀ moment ∈ ppu.moments actions, moment.startsBlank = false) :
    ∀ moment ∈ ppu.moments actions, moment.after.status.verticalBlank = false := by
  induction actions generalizing ppu with
  | nil =>
      intro moment hMoment
      simp at hMoment
  | cons action actions ih =>
      rw [moments_cons, List.forall_mem_cons] at hStarts ⊢
      have hAfter : (ppu.apply action).status.verticalBlank = false := by
        rw [Bool.eq_false_iff]
        intro hSet
        rw [verticalBlank_of_apply hStarts.1 hSet] at hClear
        exact absurd hClear.symm Bool.false_ne_true
      exact ⟨hAfter, ih hAfter hStarts.2⟩

end Nes.Ppu
