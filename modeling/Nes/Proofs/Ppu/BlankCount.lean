import Nes.Proofs.Ppu.NmiEdge

/-! Interrupts counted over a whole history, and how far apart they are. -/

namespace Nes.Ppu

namespace Moment

/-- The number of vertical blankings with a moment of a certain kind. A blanking goes on until the
next one starts. -/
def blanksWith (kind : Moment → Bool) : List Moment → Nat
  | [] => 0
  | moment :: later =>
    (moment.startsBlank &&
      (moment :: later.takeWhile fun next => !next.startsBlank).any kind).toNat +
      blanksWith kind later

/-- The interrupt line is active, and it is the start of vertical blanking or a write to the control
register inside it that has made it so. -/
def activates (moment : Moment) : Bool :=
  moment.active && (moment.startsBlank ||
    match moment.action with
    | .write .control _ => moment.before.status.verticalBlank
    | _ => false)

end Moment

/-- While the interrupt line is not active, it takes a write to the control register to change
that. -/
theorem any_active_of_no_start {ppu : Ppu} {actions : List Action} (hLine : ppu.nmiLine = false)
    (hStarts : ∀ moment ∈ ppu.moments actions, moment.startsBlank = false) :
    (ppu.moments actions).any Moment.active = (ppu.moments actions).any Moment.activates := by
  induction actions generalizing ppu with
  | nil => rfl
  | cons action actions ih =>
      rw [moments_cons, List.forall_mem_cons] at hStarts
      rw [moments_cons, List.any_cons, List.any_cons]
      cases hActive : (Moment.mk ppu action).active with
      | false =>
          have hRest := @ih (ppu.apply action) hActive hStarts.2
          rw [hRest, Moment.activates, hActive, Bool.false_and]
      | true =>
          have hWrite : ∃ value, action = .write .control value := by
            refine Classical.byContradiction fun hNone => ?_
            rw [not_exists] at hNone
            rw [nmiLine_of_apply hStarts.1 hNone hActive] at hLine
            exact absurd hLine.symm Bool.false_ne_true
          obtain ⟨value, rfl⟩ := hWrite
          have hFlag : ppu.status.verticalBlank = true :=
            verticalBlank_of_apply hStarts.1 (Bool.and_eq_true_iff.mp hActive).2
          rw [Moment.activates, hActive, hFlag, Bool.or_true, Bool.and_true, Bool.true_or,
            Bool.true_or]

/-- What the start of a history keeps, until the next vertical blanking, is the history of a run. -/
theorem takeWhile_moments (ppu : Ppu) (actions : List Action) :
    ∃ blank, (ppu.moments actions).takeWhile (fun next => !next.startsBlank) = ppu.moments blank ∧
      ∀ moment ∈ ppu.moments blank, moment.startsBlank = false := by
  obtain ⟨first, second, -, hFirst, -⟩ := exists_of_moments_eq_append
    (List.takeWhile_append_dropWhile (p := fun next : Moment => !next.startsBlank)
      (l := ppu.moments actions)).symm
  refine ⟨first, hFirst.symm, ?_⟩
  intro moment hMoment
  rw [hFirst] at hMoment
  simpa using List.all_eq_true.mp List.all_takeWhile moment hMoment

/-- A vertical blanking with an active line is one in which something has made it active. -/
theorem blanksWith_active (ppu : Ppu) (actions : List Action) :
    Moment.blanksWith Moment.active (ppu.moments actions) =
      Moment.blanksWith Moment.activates (ppu.moments actions) := by
  induction actions generalizing ppu with
  | nil => rfl
  | cons action actions ih =>
      rw [moments_cons, Moment.blanksWith, Moment.blanksWith, ih]
      cases hStart : (Moment.mk ppu action).startsBlank with
      | false => rw [Bool.false_and, Bool.false_and]
      | true =>
          obtain ⟨blank, hBlank, hInside⟩ := takeWhile_moments (ppu.apply action) actions
          rw [hBlank, List.any_cons, List.any_cons, Moment.activates, hStart, Bool.true_or,
            Bool.and_true]
          cases hActive : (Moment.mk ppu action).active with
          | true => rw [Bool.true_or, Bool.true_or]
          | false =>
              have hLine : (ppu.apply action).nmiLine = false := hActive
              have hRest := any_active_of_no_start hLine hInside
              rw [hRest]

/-- Each vertical blanking with an active moment raises one interrupt. The one under way at the
start does so unless the latch is closed already. -/
theorem countP_raises {ppu : Ppu} (hLine : LineRaised ppu) (actions : List Action) :
    (ppu.moments actions).countP Moment.raises =
      Moment.blanksWith Moment.active (ppu.moments actions) +
      (!ppu.nmi.raised && ((ppu.moments actions).takeWhile fun next =>
        !next.startsBlank).any Moment.active).toNat := by
  induction actions generalizing ppu with
  | nil => simp [Moment.blanksWith]
  | cons action actions ih =>
      have hRest := ih (lineRaised_apply ppu action hLine)
      rw [moments_cons, List.countP_cons, hRest, Moment.blanksWith, List.takeWhile_cons]
      cases hStart : (Moment.mk ppu action).startsBlank with
      | true =>
          obtain ⟨hRaises, hAfter⟩ := raises_of_startsBlank hStart
          rw [hRaises, show (ppu.apply action).nmi.raised = _ from hAfter, List.any_cons]
          cases (Moment.mk ppu action).active <;> simp <;> omega
      | false =>
          obtain ⟨hRaises, hAfter⟩ := raises_of_not_startsBlank hStart hLine
          rw [hRaises, show (ppu.apply action).nmi.raised = _ from hAfter]
          simp only [Bool.false_and, Bool.not_false, if_true, List.any_cons]
          cases (Moment.mk ppu action).active <;> cases ppu.nmi.raised <;> simp

/-- From power on, interrupts and vertical blankings with an active moment are equal in number. -/
theorem countP_raises_powerOn (actions : List Action) :
    (({} : Ppu).moments actions).countP Moment.raises =
      Moment.blanksWith Moment.active (({} : Ppu).moments actions) := by
  rw [countP_raises lineRaised_powerOn]
  have hQuiet : ((({} : Ppu).moments actions).takeWhile fun next =>
      !next.startsBlank).any Moment.active = false := by
    obtain ⟨blank, hBlank, hInside⟩ := takeWhile_moments {} actions
    rw [hBlank, List.any_eq_false]
    intro moment hMoment
    rw [Moment.active, nmiLine, verticalBlank_eq_false_of_no_start rfl hInside moment hMoment,
      Bool.and_false]
    exact Bool.false_ne_true
  rw [hQuiet, Bool.and_false]
  rfl

/-- A dot brings the next vertical blanking nearer by two places at most. -/
theorem dotsToBlank_apply (moment : Moment) :
    moment.before.beam.dotsToBlank ≤
      moment.after.beam.dotsToBlank + 2 * moment.action.isDot.toNat := by
  obtain ⟨ppu, action⟩ := moment
  rw [Moment.after, beam_apply]
  cases action with
  | dot memory => exact ppu.beam.dotsToBlank_next ppu.mask.rendering
  | _ => exact Nat.le_add_right _ _

/-- Vertical blanking starts with a dot at its place. -/
theorem dotsToBlank_of_startsBlank {moment : Moment} (hStart : moment.startsBlank = true) :
    moment.action.isDot = true ∧ moment.before.beam.dotsToBlank = 0 := by
  rw [Moment.startsBlank, Moment.isDotAt, Bool.and_eq_true, decide_eq_true_eq,
    Beam.at_iff_position _ (by decide), Beam.verticalBlankLine] at hStart
  refine ⟨hStart.1, ?_⟩
  simp only [Beam.dotsToBlank, Beam.dotsPerPicture, hStart.2]

/-- No vertical blanking starts while it is further away than the dots reach. -/
theorem startsBlank_eq_false_of_far {ppu : Ppu} {actions : List Action}
    (hFar : 2 * Action.dots actions ≤ ppu.beam.dotsToBlank) :
    ∀ moment ∈ ppu.moments actions, moment.startsBlank = false := by
  induction actions generalizing ppu with
  | nil =>
      intro moment hMoment
      simp at hMoment
  | cons action actions ih =>
      have hNext := dotsToBlank_apply ⟨ppu, action⟩
      simp only [Moment.after] at hNext
      rw [Action.dots_cons] at hFar
      rw [moments_cons, List.forall_mem_cons]
      refine ⟨?_, ih (by omega)⟩
      rw [Bool.eq_false_iff]
      intro hStart
      obtain ⟨hDot, hZero⟩ := dotsToBlank_of_startsBlank hStart
      rw [hDot, hZero, Bool.toNat_true] at hFar
      omega

/-- The dots of one processor step are too few for two interrupts: after the first one the next
vertical blanking is far away. -/
theorem countP_raises_le_one {ppu : Ppu} (hLine : LineRaised ppu) (hWindow : BlankInWindow ppu)
    {actions : List Action} (hDots : Action.dots actions ≤ 1566) :
    (ppu.moments actions).countP Moment.raises ≤ 1 := by
  induction actions generalizing ppu with
  | nil => simp
  | cons action actions ih =>
      have hLineAfter := lineRaised_apply ppu action hLine
      have hWindowAfter := blankInWindow_apply ppu action hWindow
      have hDotsAfter : Action.dots actions ≤ 1566 := by
        rw [Action.dots_cons] at hDots
        omega
      rw [moments_cons, List.countP_cons]
      cases hRaises : (Moment.mk ppu action).raises with
      | false => simpa using ih hLineAfter hWindowAfter hDotsAfter
      | true =>
          have hActive : (ppu.apply action).nmiLine = true := by
            cases hStart : (Moment.mk ppu action).startsBlank with
            | true => exact (raises_of_startsBlank hStart).1.symm.trans hRaises
            | false =>
                have h := (raises_of_not_startsBlank hStart hLine).1.symm.trans hRaises
                exact (Bool.and_eq_true_iff.mp h).1
          have hFlag := (Bool.and_eq_true_iff.mp hActive).2
          have hPosition := hWindowAfter hFlag
          have hFar : 2 * Action.dots actions ≤
              (ppu.apply action).beam.dotsToBlank := by
            simp only [Beam.dotsToBlank, Beam.dotsPerPicture]
            omega
          have hNone := filter_raises_of_no_start hLineAfter (startsBlank_eq_false_of_far hFar)
          rw [if_pos (hLineAfter hActive)] at hNone
          rw [List.countP_eq_length_filter, hNone]
          simp

/-- An interrupt that is raised stays pending until the next poll. -/
theorem pending_apply (moment : Moment) (hPoll : moment.action.isPoll = false) :
    moment.after.nmi.pending = (moment.before.nmi.pending || moment.raises) := by
  obtain ⟨ppu, action⟩ := moment
  cases action with
  | dot memory =>
      simp only [Moment.after, Moment.raises, apply, nmi_tick, Nmi.tick, pollNmi]
      split
      · cases ppu.control.nmiEnabled <;> simp [Nmi.signal]
      · simp
  | read memory register => simp [Moment.after, Moment.raises, apply, pollNmi]
  | write register value =>
      simp only [Moment.after, Moment.raises, apply, nmi_write]
      split
      · rename_i hRegister
        subst hRegister
        have hSame : (ppu.pollNmi.2.write .control value).nmiLine =
            (ppu.write .control value).nmiLine := rfl
        rw [hSame]
        cases (ppu.write .control value).nmiLine <;> cases hRaised : ppu.nmi.raised <;>
          simp [Nmi.signal, pollNmi, hRaised]
      · simp [pollNmi]
  | poll => exact absurd hPoll.symm Bool.false_ne_true

/-- Without polls, what was raised is pending in the end. -/
theorem pending_execute {ppu : Ppu} {actions : List Action}
    (hPolls : ∀ action ∈ actions, action.isPoll = false) :
    (ppu.execute actions).nmi.pending =
      (ppu.nmi.pending || (ppu.moments actions).any Moment.raises) := by
  induction actions generalizing ppu with
  | nil => simp
  | cons action actions ih =>
      rw [List.forall_mem_cons] at hPolls
      rw [execute_cons, ih hPolls.2, show (ppu.apply action).nmi.pending = _ from
        pending_apply ⟨ppu, action⟩ hPolls.1, moments_cons, List.any_cons, Bool.or_assoc]

/-- What is pending at the end of a processor step is the number of interrupts raised in it. -/
theorem countP_raises_eq_pending {ppu : Ppu} (hLine : LineRaised ppu) (hWindow : BlankInWindow ppu)
    (hPending : ppu.nmi.pending = false) {actions : List Action}
    (hDots : Action.dots actions ≤ 1566)
    (hPolls : ∀ action ∈ actions, action.isPoll = false) :
    (ppu.moments actions).countP Moment.raises = (ppu.execute actions).nmi.pending.toNat := by
  have hOne := countP_raises_le_one hLine hWindow hDots
  rw [pending_execute hPolls, hPending, Bool.false_or]
  cases hAny : (ppu.moments actions).any Moment.raises with
  | false =>
      rw [List.any_eq_false] at hAny
      rw [List.countP_eq_zero.mpr hAny]
      rfl
  | true =>
      rw [List.any_eq_true] at hAny
      have := List.countP_pos_iff.mpr hAny
      rw [Bool.toNat_true]
      omega

end Nes.Ppu
