import Nes.Proofs.Ppu.VerticalBlank

/-! The interrupt of the picture unit as an edge. The line may go up and down many times in one
vertical blanking, but only the first moment at which it is active raises an interrupt. -/

namespace Nes.Ppu

namespace Moment

/-- The action raises an interrupt: behind a poll, it leaves one pending. -/
def raises (moment : Moment) : Bool :=
  (moment.before.pollNmi.2.apply moment.action).nmi.pending

def active (moment : Moment) : Bool :=
  moment.after.nmiLine

/-- The action is a poll that notices an interrupt. -/
def notices (moment : Moment) : Bool :=
  match moment.action with
  | .poll => moment.before.pollNmi.1
  | _ => false

end Moment

/-- While the line is active, the interrupt of this vertical blanking has been raised. -/
def LineRaised (ppu : Ppu) : Prop :=
  ppu.nmiLine = true → ppu.nmi.raised = true

/-- The line is not active when the unit is switched on. -/
theorem lineRaised_powerOn : LineRaised {} := fun h => absurd h Bool.false_ne_true

/-- The interrupt line cannot become active by itself: it takes a new vertical blanking or a write
to the control register. -/
theorem nmiLine_of_apply {ppu : Ppu} {action : Action}
    (hStart : (Moment.mk ppu action).startsBlank = false)
    (hControl : ∀ value, action ≠ .write .control value)
    (hAfter : (ppu.apply action).nmiLine = true) : ppu.nmiLine = true := by
  rw [nmiLine, Bool.and_eq_true] at hAfter ⊢
  refine ⟨?_, verticalBlank_of_apply hStart hAfter.2⟩
  cases action with
  | dot memory => simpa only [apply, control_tick] using hAfter.1
  | read memory register => simpa only [apply, control_read] using hAfter.1
  | write register value =>
      have hRegister : register ≠ .control := fun h => hControl value (h ▸ rfl)
      simpa only [apply, control_write_of_ne _ _ _ hRegister] using hAfter.1
  | poll => exact hAfter.1

/-- The dot that starts a vertical blanking opens the latch and raises the interrupt if the line is
active behind it. -/
theorem raises_of_startsBlank {moment : Moment} (hStart : moment.startsBlank = true) :
    moment.raises = moment.active ∧ moment.after.nmi.raised = moment.active := by
  obtain ⟨ppu, action⟩ := moment
  cases action with
  | dot memory =>
      rw [Moment.startsBlank_dot, decide_eq_true_eq] at hStart
      have hLine : (ppu.tick memory).nmiLine = ppu.control.nmiEnabled := by
        rw [nmiLine, control_tick, verticalBlank_tick, if_pos hStart, Bool.and_true]
      have hNmi (nmi : Nmi) : nmi.tick ppu.beam ppu.control.nmiEnabled =
          Nmi.signal { nmi with raised := false } ppu.control.nmiEnabled := by
        rw [Nmi.tick, if_pos hStart]
      simp only [Moment.raises, Moment.active, Moment.after, apply, hLine, nmi_tick]
      rw [hNmi, show ppu.pollNmi.2.beam = ppu.beam from rfl,
        show ppu.pollNmi.2.control = ppu.control from rfl, hNmi]
      cases ppu.control.nmiEnabled <;> exact ⟨rfl, rfl⟩
  | read memory register => exact absurd hStart Bool.false_ne_true
  | write register value => exact absurd hStart Bool.false_ne_true
  | poll => exact absurd hStart Bool.false_ne_true

/-- Inside a vertical blanking the latch closes with the first active moment, which is the one that
raises the interrupt. -/
theorem raises_of_not_startsBlank {moment : Moment} (hStart : moment.startsBlank = false)
    (hLine : LineRaised moment.before) :
    moment.raises = (moment.active && !moment.before.nmi.raised) ∧
      moment.after.nmi.raised = (moment.active || moment.before.nmi.raised) := by
  obtain ⟨ppu, action⟩ := moment
  -- An action that leaves the latch alone cannot make the line active either.
  have hQuiet (hControl : ∀ value, action ≠ .write .control value)
      (hNmi : (ppu.apply action).nmi.raised = ppu.nmi.raised)
      (hPending : (ppu.pollNmi.2.apply action).nmi.pending = false) :
      (ppu.pollNmi.2.apply action).nmi.pending =
          ((ppu.apply action).nmiLine && !ppu.nmi.raised) ∧
        (ppu.apply action).nmi.raised = ((ppu.apply action).nmiLine || ppu.nmi.raised) := by
    rw [hPending, hNmi]
    cases hActive : (ppu.apply action).nmiLine with
    | false => exact ⟨rfl, rfl⟩
    | true =>
        have hRaised : ppu.nmi.raised = true := hLine (nmiLine_of_apply hStart hControl hActive)
        rw [hRaised]
        exact ⟨rfl, rfl⟩
  cases action with
  | dot memory =>
      rw [Moment.startsBlank_dot, decide_eq_false_iff_not] at hStart
      have hNmi (nmi : Nmi) : nmi.tick ppu.beam ppu.control.nmiEnabled = nmi := by
        rw [Nmi.tick, if_neg hStart]
      refine hQuiet (fun value => Action.noConfusion) ?_ ?_
      · rw [apply, nmi_tick, hNmi]
      · rw [apply, nmi_tick]
        exact congrArg Nmi.pending (hNmi ppu.pollNmi.2.nmi)
  | read memory register =>
      refine hQuiet (fun value => Action.noConfusion) ?_ ?_
      · rw [apply, nmi_read]
      · rw [apply, nmi_read]
        rfl
  | write register value =>
      by_cases hRegister : register = .control
      · subst hRegister
        simp only [Moment.raises, Moment.active, Moment.after, apply, nmi_write, if_true]
        have hSame : (ppu.pollNmi.2.write .control value).nmiLine =
            (ppu.write .control value).nmiLine := rfl
        rw [hSame, show ppu.pollNmi.2.nmi = { ppu.nmi with pending := false } from rfl]
        cases (ppu.write .control value).nmiLine <;> cases hRaised : ppu.nmi.raised <;>
          simp [Nmi.signal, hRaised]
      · have hKept (ppu : Ppu) : (ppu.write register value).nmi = ppu.nmi := by
          rw [nmi_write, if_neg hRegister]
        refine hQuiet (fun other h => ?_) ?_ ?_
        · injection h with h
          exact hRegister h
        · rw [apply, hKept]
        · rw [apply, hKept]
          rfl
  | poll => exact hQuiet (fun value => Action.noConfusion) rfl rfl

/-- No action leaves the line active without having raised an interrupt. -/
theorem lineRaised_apply (ppu : Ppu) (action : Action) (hLine : LineRaised ppu) :
    LineRaised (ppu.apply action) := by
  intro hAfter
  cases hStart : (Moment.mk ppu action).startsBlank with
  | true => exact (raises_of_startsBlank hStart).2.trans hAfter
  | false =>
      refine (raises_of_not_startsBlank hStart hLine).2.trans ?_
      rw [show (Moment.mk ppu action).active = true from hAfter, Bool.true_or]

/-- After a run from power on the latch is closed while the line is active. -/
theorem lineRaised_execute (actions : List Action) : LineRaised (({} : Ppu).execute actions) :=
  execute_induction lineRaised_apply lineRaised_powerOn actions

/-- Until the next vertical blanking an interrupt is raised once at most: at the first active
moment, unless the latch is closed already. -/
theorem filter_raises_of_no_start {ppu : Ppu} {actions : List Action} (hLine : LineRaised ppu)
    (hStarts : ∀ moment ∈ ppu.moments actions, moment.startsBlank = false) :
    (ppu.moments actions).filter Moment.raises =
      if ppu.nmi.raised then [] else ((ppu.moments actions).find? Moment.active).toList := by
  induction actions generalizing ppu with
  | nil => simp
  | cons action actions ih =>
      rw [moments_cons, List.forall_mem_cons] at hStarts
      obtain ⟨hRaises, hAfter⟩ := raises_of_not_startsBlank hStarts.1 hLine
      have hRest := ih (lineRaised_apply ppu action hLine) hStarts.2
      rw [show (ppu.apply action).nmi.raised = _ from hAfter] at hRest
      rw [moments_cons, List.filter_cons, List.find?_cons, hRaises, hRest]
      cases (Moment.mk ppu action).active <;> cases ppu.nmi.raised <;> rfl

/-- A vertical blanking raises its interrupt at its first active moment, and only there. -/
theorem filter_raises_blank {ppu : Ppu} {action : Action} {actions : List Action}
    (hFirst : (Moment.mk ppu action).startsBlank = true) (hLine : LineRaised ppu)
    (hStarts : ∀ moment ∈ (ppu.apply action).moments actions, moment.startsBlank = false) :
    (ppu.moments (action :: actions)).filter Moment.raises =
      ((ppu.moments (action :: actions)).find? Moment.active).toList := by
  obtain ⟨hRaises, hAfter⟩ := raises_of_startsBlank hFirst
  have hRest := filter_raises_of_no_start (lineRaised_apply ppu action hLine) hStarts
  rw [show (ppu.apply action).nmi.raised = _ from hAfter] at hRest
  rw [moments_cons, List.filter_cons, List.find?_cons, hRaises, hRest]
  cases (Moment.mk ppu action).active <;> rfl

namespace Nmi

/-- How many polls can still notice an interrupt before the next vertical blanking: one for an
interrupt that is pending, and one while the latch is open during vertical blanking. -/
def openPolls (nmi : Nmi) (blank : Bool) : Nat :=
  nmi.pending.toNat + (blank && !nmi.raised).toNat

/-- Vertical blanking takes no room for polls away. -/
theorem openPolls_le (nmi : Nmi) {blank other : Bool} (hBlank : blank = true → other = true) :
    nmi.openPolls blank ≤ nmi.openPolls other := by
  cases blank with
  | false => exact Nat.le_add_right _ _
  | true => exact Nat.le_of_eq (congrArg nmi.openPolls (hBlank rfl).symm)

/-- A signal closes the latch with the interrupt that it raises, which makes no room. -/
theorem openPolls_signal (nmi : Nmi) {line blank : Bool} (hLine : line = true → blank = true) :
    (nmi.signal line).openPolls blank ≤ nmi.openPolls blank := by
  obtain ⟨raised, pending⟩ := nmi
  cases line with
  | false => exact Nat.le_refl _
  | true =>
      rw [hLine rfl]
      cases raised <;> cases pending <;> decide

end Nmi

def openPolls (ppu : Ppu) : Nat :=
  ppu.nmi.openPolls ppu.status.verticalBlank

/-- Only a new vertical blanking makes room for one more poll, and a poll that notices an interrupt
uses one up. -/
theorem openPolls_apply (moment : Moment) :
    moment.notices.toNat + moment.after.openPolls ≤
      moment.startsBlank.toNat + moment.before.openPolls := by
  obtain ⟨ppu, action⟩ := moment
  cases action with
  | dot memory =>
      refine Nat.le_trans (Nat.le_of_eq (Nat.zero_add _)) ?_
      rw [Moment.startsBlank_dot, Moment.after, apply, openPolls, nmi_tick, verticalBlank_tick,
        Nmi.tick]
      by_cases hStart : ppu.beam.At Beam.verticalBlankLine 1
      · rw [if_pos hStart, if_pos hStart, decide_eq_true hStart]
        refine Nat.le_trans (Nmi.openPolls_signal _ fun _ => rfl) ?_
        simp only [openPolls, Nmi.openPolls, Bool.not_false, Bool.and_true, Bool.toNat_true]
        omega
      · rw [if_neg hStart, if_neg hStart, decide_eq_false hStart]
        refine Nat.le_trans (Nmi.openPolls_le _ ?_) (Nat.le_add_left _ _)
        split
        · exact fun h => absurd h Bool.false_ne_true
        · exact id
  | read memory register =>
      refine Nat.le_trans (Nat.le_of_eq (Nat.zero_add _)) ?_
      rw [Moment.after, apply, openPolls, nmi_read, verticalBlank_read]
      refine Nat.le_trans (Nmi.openPolls_le _ fun h => ?_) (Nat.le_add_left _ _)
      rw [Bool.and_eq_true] at h
      exact h.1
  | write register value =>
      refine Nat.le_trans (Nat.le_of_eq (Nat.zero_add _)) ?_
      rw [Moment.after, apply, openPolls, nmi_write, status_write]
      refine Nat.le_trans ?_ (Nat.le_add_left _ _)
      split
      · refine Nmi.openPolls_signal _ fun h => ?_
        rw [nmiLine, status_write, Bool.and_eq_true] at h
        exact h.2
      · exact Nat.le_refl _
  | poll =>
      simp only [Moment.notices, Moment.after, apply, openPolls, Nmi.openPolls, pollNmi,
        Bool.toNat_false]
      omega

/-- Polls notice at most one interrupt for each vertical blanking, and those that were still open at
the start. -/
theorem countP_notices_le (ppu : Ppu) (actions : List Action) :
    (ppu.moments actions).countP Moment.notices ≤
      (ppu.moments actions).countP Moment.startsBlank + ppu.openPolls := by
  induction actions generalizing ppu with
  | nil => simp
  | cons action actions ih =>
      have hStep := openPolls_apply ⟨ppu, action⟩
      have hRest := ih (ppu.apply action)
      rw [moments_cons, List.countP_cons, List.countP_cons]
      simp only [Moment.after] at hStep
      cases hNotices : (Moment.mk ppu action).notices <;>
        cases hStart : (Moment.mk ppu action).startsBlank <;>
        simp only [hNotices, hStart, Bool.toNat_false, Bool.toNat_true, if_true,
          Bool.false_eq_true, if_false] at hStep ⊢ <;> omega

/-- The interrupt is an edge. However dots, accesses and polls follow each other from power on, a
vertical blanking raises it at the first moment at which the line is active, at no other moment,
and not at all if there is no such moment. None is raised before the first vertical blanking. While
the line is active the latch is closed, and polls notice no more interrupts than there were vertical
blankings. -/
theorem nmi_raised_once_per_blank (actions : List Action) :
    (∀ earlier first during later,
      ({} : Ppu).moments actions = earlier ++ first :: (during ++ later) →
      first.startsBlank = true → (∀ moment ∈ during, moment.startsBlank = false) →
      (first :: during).filter Moment.raises =
        ((first :: during).find? Moment.active).toList) ∧
    (∀ earlier later, ({} : Ppu).moments actions = earlier ++ later →
      (∀ moment ∈ earlier, moment.startsBlank = false) →
      ∀ moment ∈ earlier, moment.raises = false) ∧
    ((({} : Ppu).execute actions).nmiLine = true →
      (({} : Ppu).execute actions).nmi.raised = true) ∧
    (({} : Ppu).moments actions).countP Moment.notices ≤
      (({} : Ppu).moments actions).countP Moment.startsBlank := by
  refine ⟨?_, ?_, lineRaised_execute actions, ?_⟩
  · intro earlier first during later hHistory hFirst hDuring
    obtain ⟨before, rest, rfl, -, hRest⟩ := exists_of_moments_eq_append hHistory
    rw [← List.cons_append] at hRest
    obtain ⟨blank, after, rfl, hBlank, -⟩ := exists_of_moments_eq_append hRest
    cases blank with
    | nil => simp at hBlank
    | cons action blank =>
        obtain ⟨rfl, rfl⟩ := List.cons.inj hBlank
        exact filter_raises_blank hFirst (lineRaised_execute before) hDuring
  · intro earlier later hHistory hStarts
    obtain ⟨before, after, rfl, rfl, -⟩ := exists_of_moments_eq_append hHistory
    have hQuiet := verticalBlank_eq_false_of_no_start rfl hStarts
    have hNone : (({} : Ppu).moments before).find? Moment.active = none := by
      rw [List.find?_eq_none]
      intro moment hMoment
      rw [Moment.active, nmiLine, hQuiet moment hMoment, Bool.and_false]
      exact Bool.false_ne_true
    have hFilter := filter_raises_of_no_start lineRaised_powerOn hStarts
    rw [hNone] at hFilter
    intro moment hMoment
    rw [Bool.eq_false_iff]
    intro hRaises
    have := List.mem_filter.mpr ⟨hMoment, hRaises⟩
    rw [hFilter] at this
    simp at this
  · exact countP_notices_le {} actions

/-- From power on, an access that enables the interrupt, and a number of dots. -/
def enabledFor (dots : Nat) : List Action :=
  .write .control 0x80 :: List.replicate dots (.dot fun _ => 0)

/-- The beam after a number of dots of the first picture. -/
theorem position_enabledFor {dots : Nat} (hDots : dots ≤ 89341) :
    (({} : Ppu).execute (enabledFor dots)).beam.position = dots := by
  let ppu := ({} : Ppu).apply (.write .control 0x80)
  have hStart : ppu.beam.position = 0 := rfl
  have hLast : ppu.beam.lastDot ppu.mask.rendering = 89341 := rfl
  rw [enabledFor, execute_cons, execute_replicate_dot,
    (run_inside ppu (fun _ => 0) dots (by omega)).1]
  omega

theorem nmiEnabled_enabledFor (dots : Nat) :
    (({} : Ppu).execute (enabledFor dots)).control.nmiEnabled = true := by
  have hRun (ppu : Ppu) : (ppu.run (fun _ => 0) dots).control = ppu.control := by
    induction dots generalizing ppu with
    | zero => rfl
    | succ dots ih => rw [run_succ, ih, control_tick]
  rw [enabledFor, execute_cons, execute_replicate_dot, hRun]
  rfl

/-- The start of a vertical blanking and a poll behind it, as the end of a longer history. -/
theorem blank_history {before : List Action} {memory : UInt16 → UInt8}
    (hPosition : (({} : Ppu).execute before).beam.position = 82182)
    (hEnabled : (({} : Ppu).execute before).control.nmiEnabled = true) :
    let start : Moment := ⟨({} : Ppu).execute before, .dot memory⟩
    let poll : Moment := ⟨start.after, .poll⟩
    ({} : Ppu).moments (before ++ [.dot memory, .poll]) =
        ({} : Ppu).moments before ++ start :: ([poll] ++ []) ∧
      start.startsBlank = true ∧ (∀ moment ∈ [poll], moment.startsBlank = false) ∧
      start.active = true := by
  intro start poll
  have hBeam : (({} : Ppu).execute before).beam.At Beam.verticalBlankLine 1 := by
    rw [Beam.at_iff_position _ (by decide)]
    exact hPosition
  refine ⟨?_, ?_, ?_, ?_⟩
  · rw [moments_append]
    rfl
  · rw [Moment.startsBlank_dot, decide_eq_true_eq]
    exact hBeam
  · intro moment hMoment
    rw [List.mem_singleton] at hMoment
    subst hMoment
    rfl
  · rw [Moment.active, Moment.after, apply, nmiLine, control_tick, verticalBlank_tick,
      if_pos hBeam, hEnabled]
    rfl

/-- The first vertical blanking with the interrupt enabled raises it with its first dot. -/
theorem nmi_raised_in_first_blank :
    let start : Moment := ⟨({} : Ppu).execute (enabledFor 82182), .dot fun _ => 0⟩
    let poll : Moment := ⟨start.after, .poll⟩
    ({} : Ppu).moments (enabledFor 82182 ++ [.dot fun _ => 0, .poll]) =
        ({} : Ppu).moments (enabledFor 82182) ++ start :: ([poll] ++ []) ∧
      start.startsBlank = true ∧ (∀ moment ∈ [poll], moment.startsBlank = false) ∧
      [start, poll].filter Moment.raises = [start] := by
  have hPosition := position_enabledFor (show 82182 ≤ 89341 by decide)
  obtain ⟨hHistory, hStart, hDuring, hActive⟩ :=
    blank_history hPosition (nmiEnabled_enabledFor 82182)
  refine ⟨hHistory, hStart, hDuring, ?_⟩
  refine ((nmi_raised_once_per_blank _).1 _ _ _ _ hHistory hStart hDuring).trans ?_
  rw [List.find?_cons_of_pos hActive]
  rfl

end Nes.Ppu
