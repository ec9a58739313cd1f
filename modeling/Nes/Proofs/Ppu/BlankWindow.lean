import Nes.Proofs.Ppu.NmiEdge

/-! The flag of vertical blanking as a window of the raster. It is set from the dot behind the start
of a vertical blanking up to the dot that ends it, and a program that reads the status register
takes it away for the rest of the window. -/

namespace Nes.Ppu

namespace Beam

/-- The beam is behind the dot that starts a vertical blanking and has not passed the one that ends
it. -/
def inBlankWindow (beam : Beam) : Bool :=
  decide (341 * verticalBlankLine + 2 ≤ beam.position ∧
    beam.position ≤ 341 * preRenderLine + 1)

/-- The beam enters the window at the dot that starts a vertical blanking and leaves it at the dot
that ends it. -/
theorem inBlankWindow_next (beam : Beam) (rendering : Bool) :
    (beam.next rendering).inBlankWindow =
      ((decide (beam.At verticalBlankLine 1) || beam.inBlankWindow) &&
        !decide (beam.At preRenderLine 1)) := by
  have hStart : beam.At verticalBlankLine 1 ↔ beam.position = 341 * verticalBlankLine + 1 :=
    beam.at_iff_position (by decide)
  have hEnd : beam.At preRenderLine 1 ↔ beam.position = 341 * preRenderLine + 1 :=
    beam.at_iff_position (by decide)
  rw [Bool.eq_iff_iff, Bool.and_eq_true, Bool.or_eq_true, Bool.not_eq_true', decide_eq_true_iff,
    decide_eq_false_iff_not, hStart, hEnd]
  simp only [inBlankWindow, decide_eq_true_eq]
  simp only [verticalBlankLine, preRenderLine]
  by_cases hLast : beam.EndsFrame rendering
  · have hPosition := beam.position_of_endsFrame _ hLast
    have hZero : (beam.next rendering).position = 0 := by
      rw [next_of_endsFrame _ _ hLast]
      rfl
    rw [hZero]
    split at hPosition <;> omega
  · rw [beam.position_next_of_not_endsFrame _ hLast]
    omega

end Beam

/-- In the byte that a read of the status register gives, only the lower five bits come from the
latch. -/
theorem Status.toByte_latched_and (status : Status) (latch : UInt8) {bits : UInt8}
    (hBits : 0x1f &&& bits = 0) :
    (status.toByte ||| (latch &&& 0x1f)) &&& bits = status.toByte &&& bits := by
  have hOr (first second : UInt8) :
      (first ||| second) &&& bits = first &&& bits ||| second &&& bits :=
    UInt8.toBitVec_inj.mp BitVec.and_or_distrib_right
  rw [hOr, UInt8.and_assoc, hBits, UInt8.and_zero, UInt8.or_zero]

/-- The action reads the status register. -/
def Action.readsStatus : Action → Bool
  | .read _ register => decide (register = .status)
  | _ => false

/-- The status register repeats every eight bytes. -/
theorem readsStatus_ofAddress (memory : UInt16 → UInt8) (address : UInt16) :
    (Action.read memory (.ofAddress address)).readsStatus = decide (address.toNat % 8 = 2) := by
  rw [Action.readsStatus, decide_eq_decide, Register.ofAddress]
  split <;> simp_all

namespace Moment

def readsStatus (moment : Moment) : Bool :=
  moment.action.readsStatus

/-- The dot that ends a vertical blanking. -/
def endsBlank (moment : Moment) : Bool :=
  moment.isDotAt Beam.preRenderLine 1

/-- The action reads the status register and gets a byte with the flag of vertical blanking. -/
def answersBlank (moment : Moment) : Bool :=
  moment.readsStatus && moment.after.latch &&& 0x80 != 0

/-- The action reads the status register inside the window of vertical blanking. -/
def readsInWindow (moment : Moment) : Bool :=
  moment.readsStatus && moment.before.beam.inBlankWindow

def setsBlank (moment : Moment) : Bool :=
  !moment.before.status.verticalBlank && moment.after.status.verticalBlank

def clearsBlank (moment : Moment) : Bool :=
  moment.before.status.verticalBlank && !moment.after.status.verticalBlank

/-- The action is the last dot of a picture. -/
def endsPicture (moment : Moment) : Bool :=
  moment.action.isDot && decide (moment.before.beam.EndsFrame moment.before.mask.rendering)

/-- Whatever the action is, it sets the flag at the start of a vertical blanking, and clears it at
the end or by a read. -/
theorem verticalBlank_after (moment : Moment) :
    moment.after.status.verticalBlank =
      ((moment.startsBlank || moment.before.status.verticalBlank) && !moment.endsBlank &&
        !moment.readsStatus) := by
  obtain ⟨ppu, action⟩ := moment
  simp only [after, startsBlank, endsBlank, readsStatus, isDotAt]
  cases action with
  | dot memory =>
      rw [apply, verticalBlank_tick]
      simp only [Action.isDot, Action.readsStatus, Bool.true_and, Bool.not_false, Bool.and_true]
      by_cases hStart : ppu.beam.At Beam.verticalBlankLine 1
      · rw [if_pos hStart, decide_eq_true hStart,
          decide_eq_false (Beam.not_at_preRender_of_at_verticalBlank hStart)]
        rfl
      · rw [if_neg hStart, decide_eq_false hStart]
        by_cases hEnd : ppu.beam.At Beam.preRenderLine 1
        · rw [if_pos hEnd, decide_eq_true hEnd, Bool.not_true, Bool.and_false]
        · rw [if_neg hEnd, decide_eq_false hEnd, Bool.not_false, Bool.and_true, Bool.false_or]
  | read memory register =>
      rw [apply, verticalBlank_read]
      simp only [Action.isDot, Action.readsStatus, Bool.false_and, Bool.false_or, Bool.not_false,
        Bool.and_true, decide_not]
  | write register value =>
      rw [apply, status_write]
      simp only [Action.isDot, Action.readsStatus, Bool.false_and, Bool.false_or, Bool.not_false,
        Bool.and_true]
  | poll =>
      simp only [apply, pollNmi, Action.isDot, Action.readsStatus, Bool.false_and, Bool.false_or,
        Bool.not_false, Bool.and_true]

/-- Only dots lead into the window and out of it. -/
theorem inBlankWindow_after (moment : Moment) :
    moment.after.beam.inBlankWindow =
      ((moment.startsBlank || moment.before.beam.inBlankWindow) && !moment.endsBlank) := by
  obtain ⟨ppu, action⟩ := moment
  simp only [after, startsBlank, endsBlank, isDotAt]
  rw [beam_apply]
  cases action with
  | dot memory =>
      simp only [Action.isDot, Bool.true_and]
      exact ppu.beam.inBlankWindow_next ppu.mask.rendering
  | _ =>
      simp only [Action.isDot, Bool.false_and, Bool.false_or, Bool.not_false, Bool.and_true]

/-- A vertical blanking starts outside the window and ends inside it. -/
theorem inBlankWindow_before (moment : Moment) :
    (moment.startsBlank = true →
      moment.before.beam.inBlankWindow = false ∧ moment.endsBlank = false) ∧
    (moment.endsBlank = true → moment.before.beam.inBlankWindow = true) := by
  simp only [startsBlank, endsBlank, isDotAt, Bool.and_eq_true, Bool.and_eq_false_iff,
    decide_eq_true_eq, decide_eq_false_iff_not, Beam.inBlankWindow]
  rw [Beam.at_iff_position _ (by decide), Beam.at_iff_position _ (by decide)]
  simp only [Beam.verticalBlankLine, Beam.preRenderLine]
  omega

theorem readsStatus_of_startsBlank {moment : Moment} (hStart : moment.startsBlank = true) :
    moment.readsStatus = false := by
  obtain ⟨ppu, action⟩ := moment
  cases action with
  | read memory register => exact absurd hStart Bool.false_ne_true
  | _ => rfl

/-- The flag is the highest bit of the byte that a read gives. -/
theorem answersBlank_eq (moment : Moment) :
    moment.answersBlank = (moment.readsStatus && moment.before.status.verticalBlank) := by
  obtain ⟨ppu, action⟩ := moment
  cases action with
  | read memory register =>
      by_cases hStatus : register = .status
      · subst hStatus
        have hByte (status : Status) (latch : UInt8) :
            ((status.toByte ||| (latch &&& 0x1f)) &&& 0x80 != 0) = status.verticalBlank := by
          rw [status.toByte_latched_and latch rfl]
          obtain ⟨overflow, zeroHit, blank⟩ := status
          cases overflow <;> cases zeroHit <;> cases blank <;> rfl
        exact hByte ppu.status ppu.latch
      · have hOther : (Moment.mk ppu (.read memory register)).readsStatus = false :=
          decide_eq_false hStatus
        rw [answersBlank, hOther, Bool.false_and, Bool.false_and]
  | _ => rfl

end Moment

/-- What happened since the last vertical blanking started, the latest first. -/
def sinceBlank (history : List Moment) : List Moment :=
  history.reverse.takeWhile fun moment => !moment.startsBlank

/-- The history since the start of vertical blanking, moment by moment. -/
theorem sinceBlank_concat (history : List Moment) (moment : Moment) :
    sinceBlank (history ++ [moment]) =
      if moment.startsBlank then [] else moment :: sinceBlank history := by
  rw [sinceBlank, List.reverse_concat, List.takeWhile_cons]
  cases moment.startsBlank <;> rfl

/-- Nobody has read the status register since the last vertical blanking started. -/
def Unread (history : List Moment) : Prop :=
  ∀ moment ∈ sinceBlank history, moment.readsStatus = false

/-- The flag is that of the window, as long as nobody has read it. -/
def FlagOf (history : List Moment) (ppu : Ppu) : Prop :=
  ppu.status.verticalBlank = true ↔ ppu.beam.inBlankWindow = true ∧ Unread history

/-- The flag is clear when the unit is switched on. -/
theorem flagOf_powerOn : FlagOf [] {} := by
  constructor
  · intro hSet
    exact absurd hSet Bool.false_ne_true
  · intro hWindow
    exact absurd hWindow.1 (by decide)

/-- One action keeps the account of the flag. -/
theorem FlagOf.apply {history : List Moment} {ppu : Ppu} (hFlag : FlagOf history ppu)
    (action : Action) : FlagOf (history ++ [⟨ppu, action⟩]) (ppu.apply action) := by
  let moment : Moment := ⟨ppu, action⟩
  have hAfter := moment.verticalBlank_after
  have hWindow := moment.inBlankWindow_after
  rw [FlagOf, Unread, sinceBlank_concat]
  rw [show (ppu.apply action).status.verticalBlank = _ from hAfter,
    show (ppu.apply action).beam.inBlankWindow = _ from hWindow]
  cases hStart : moment.startsBlank with
  | true =>
      rw [if_pos rfl, moment.readsStatus_of_startsBlank hStart]
      simp
  | false =>
      rw [if_neg Bool.false_ne_true, List.forall_mem_cons]
      simp only [Bool.false_or, Bool.and_eq_true, Bool.not_eq_true']
      rw [show moment.before.status.verticalBlank = true ↔ _ from hFlag]
      constructor
      · rintro ⟨⟨⟨hInside, hUnread⟩, hEnd⟩, hRead⟩
        exact ⟨⟨hInside, hEnd⟩, hRead, hUnread⟩
      · rintro ⟨⟨hInside, hEnd⟩, hRead, hUnread⟩
        exact ⟨⟨⟨hInside, hUnread⟩, hEnd⟩, hRead⟩

/-- Any number of actions keeps the account of the flag. -/
theorem FlagOf.execute {history : List Moment} {ppu : Ppu} (hFlag : FlagOf history ppu)
    (actions : List Action) :
    FlagOf (history ++ ppu.moments actions) (ppu.execute actions) :=
  history_induction (fun _ _ action hFlag => hFlag.apply action) hFlag actions

/-- Until the next vertical blanking, a read gives the flag once at most: the first one inside the
window does, unless there was one before. -/
theorem filter_answersBlank_of_no_start {ppu : Ppu} {actions : List Action} {unread : Bool}
    (hFlag : ppu.status.verticalBlank = (ppu.beam.inBlankWindow && unread))
    (hStarts : ∀ moment ∈ ppu.moments actions, moment.startsBlank = false) :
    (ppu.moments actions).filter Moment.answersBlank =
      if unread then ((ppu.moments actions).find? Moment.readsInWindow).toList else [] := by
  induction actions generalizing ppu unread with
  | nil => cases unread <;> rfl
  | cons action actions ih =>
      let moment : Moment := ⟨ppu, action⟩
      rw [moments_cons, List.forall_mem_cons] at hStarts
      have hAfter := moment.verticalBlank_after
      have hWindow := moment.inBlankWindow_after
      rw [hStarts.1, Bool.false_or, show moment.before.status.verticalBlank = _ from hFlag]
        at hAfter
      rw [hStarts.1, Bool.false_or] at hWindow
      have hAnswers : moment.answersBlank = (moment.readsInWindow && unread) := by
        rw [Moment.answersBlank_eq, show moment.before.status.verticalBlank = _ from hFlag,
          Moment.readsInWindow, Bool.and_assoc]
      -- The first read inside the window uses the flag up, and one outside finds nothing to use.
      have hNext : (ppu.apply action).status.verticalBlank =
          ((ppu.apply action).beam.inBlankWindow && (unread && !moment.readsInWindow)) := by
        rw [show (ppu.apply action).status.verticalBlank = _ from hAfter,
          show (ppu.apply action).beam.inBlankWindow = _ from hWindow, Moment.readsInWindow]
        cases moment.before.beam.inBlankWindow <;> cases moment.readsStatus <;> cases unread <;>
          cases moment.endsBlank <;> rfl
      have hRest := ih hNext hStarts.2
      rw [moments_cons, List.filter_cons, List.find?_cons,
        show (Moment.mk ppu action).answersBlank = _ from hAnswers, hRest]
      cases moment.readsInWindow <;> cases unread <;> rfl

/-- Behind the start of a vertical blanking, the first read inside the window gives the flag. -/
theorem filter_answersBlank_of_start {ppu : Ppu} {action : Action} {actions : List Action}
    (hFirst : (Moment.mk ppu action).startsBlank = true)
    (hStarts : ∀ moment ∈ (ppu.apply action).moments actions, moment.startsBlank = false) :
    ((ppu.apply action).moments actions).filter Moment.answersBlank =
      (((ppu.apply action).moments actions).find? Moment.readsInWindow).toList := by
  let moment : Moment := ⟨ppu, action⟩
  have hAfter := moment.verticalBlank_after
  have hWindow := moment.inBlankWindow_after
  rw [show moment.startsBlank = true from hFirst, Bool.true_or, Bool.true_and] at hAfter hWindow
  rw [moment.readsStatus_of_startsBlank hFirst, Bool.not_false, Bool.and_true] at hAfter
  have hFlag : (ppu.apply action).status.verticalBlank =
      ((ppu.apply action).beam.inBlankWindow && true) :=
    (hAfter.trans hWindow.symm).trans (Bool.and_true _).symm
  exact (filter_answersBlank_of_no_start hFlag hStarts).trans (if_pos rfl)

/-- While nobody reads the status register, the flag is set where a vertical blanking starts and
cleared where it ends, and nowhere else. -/
theorem setsBlank_eq_startsBlank {ppu : Ppu} {actions : List Action}
    (hFlag : ppu.status.verticalBlank = ppu.beam.inBlankWindow)
    (hReads : ∀ moment ∈ ppu.moments actions, moment.readsStatus = false) :
    ∀ moment ∈ ppu.moments actions,
      moment.setsBlank = moment.startsBlank ∧ moment.clearsBlank = moment.endsBlank := by
  induction actions generalizing ppu with
  | nil =>
      intro moment hMoment
      simp at hMoment
  | cons action actions ih =>
      let moment : Moment := ⟨ppu, action⟩
      rw [moments_cons, List.forall_mem_cons] at hReads ⊢
      have hBefore : moment.before.status.verticalBlank = moment.before.beam.inBlankWindow := hFlag
      have hAfter := moment.verticalBlank_after
      have hWindow := moment.inBlankWindow_after
      rw [show moment.readsStatus = false from hReads.1, Bool.not_false, Bool.and_true, hBefore]
        at hAfter
      refine ⟨?_, ih (hAfter.trans hWindow.symm) hReads.2⟩
      obtain ⟨hStart, hEnd⟩ := moment.inBlankWindow_before
      change moment.setsBlank = moment.startsBlank ∧ moment.clearsBlank = moment.endsBlank
      rw [Moment.setsBlank, Moment.clearsBlank, hAfter, hBefore]
      cases hStarts : moment.startsBlank with
      | true =>
          obtain ⟨hOutside, hNotEnd⟩ := hStart hStarts
          rw [hOutside, hNotEnd]
          exact ⟨rfl, rfl⟩
      | false =>
          cases hEnds : moment.endsBlank with
          | true =>
              rw [hEnd hEnds]
              exact ⟨rfl, rfl⟩
          | false => cases moment.before.beam.inBlankWindow <;> exact ⟨rfl, rfl⟩

/-- The history of a picture up to its last dot. -/
def IsPicture (history : List Moment) : Prop :=
  ∃ during last, history = during ++ [last] ∧ last.endsPicture = true ∧
    ∀ moment ∈ during, moment.endsPicture = false

/-- In the rest of a picture every dot that lies ahead is processed once. -/
theorem countP_isDotAt {ppu : Ppu} {actions : List Action} {line dot : Nat} (hDot : dot < 341)
    (hInside : 341 * line + dot < 89340) (hPicture : IsPicture (ppu.moments actions)) :
    (ppu.moments actions).countP (Moment.isDotAt · line dot) =
      if ppu.beam.position ≤ 341 * line + dot then 1 else 0 := by
  induction actions generalizing ppu with
  | nil =>
      obtain ⟨during, last, hHistory, -⟩ := hPicture
      simp at hHistory
  | cons action actions ih =>
      let moment : Moment := ⟨ppu, action⟩
      obtain ⟨during, last, hHistory, hLast, hDuring⟩ := hPicture
      have hHere : moment.isDotAt line dot =
          (action.isDot && decide (ppu.beam.position = 341 * line + dot)) := by
        rw [Moment.isDotAt, decide_eq_decide.mpr (ppu.beam.at_iff_position hDot)]
      rw [moments_cons] at hHistory ⊢
      rw [List.countP_cons, show (Moment.mk ppu action).isDotAt line dot = _ from hHere]
      cases during with
      | nil =>
          obtain ⟨rfl, hRest⟩ := List.cons.inj hHistory
          rw [Moment.endsPicture, Bool.and_eq_true, decide_eq_true_eq] at hLast
          have hPosition := ppu.beam.position_of_endsFrame _ hLast.2
          have hPast : 341 * line + dot < ppu.beam.position := by
            split at hPosition <;> omega
          rw [hRest, if_neg (show ¬ ppu.beam.position ≤ 341 * line + dot by omega),
            decide_eq_false (show ¬ ppu.beam.position = 341 * line + dot by omega),
            Bool.and_false]
          rfl
      | cons first during =>
          obtain ⟨rfl, hRest⟩ := List.cons.inj hHistory
          rw [List.forall_mem_cons] at hDuring
          rw [ih ⟨during, last, hRest, hLast, hDuring.2⟩, beam_apply]
          cases action with
          | dot memory =>
              have hGoesOn : ¬ ppu.beam.EndsFrame ppu.mask.rendering :=
                of_decide_eq_false hDuring.1
              -- A dot that the beam has passed does not come again in this picture.
              simp only [Action.isDot, Bool.true_and, decide_eq_true_eq]
              rw [ppu.beam.position_next_of_not_endsFrame _ hGoesOn]
              split <;> split <;> split <;> omega
          | _ =>
              simp only [Action.isDot, Bool.false_and, Bool.false_eq_true, if_false,
                Nat.add_zero]

/-- In a whole picture every dot is processed once. -/
theorem exists_filter_isDotAt {ppu : Ppu} {actions : List Action} {line dot : Nat}
    (hDot : dot < 341) (hInside : 341 * line + dot < 89340) (hStart : ppu.beam.position = 0)
    (hPicture : IsPicture (ppu.moments actions)) :
    ∃ moment : Moment, (ppu.moments actions).filter (Moment.isDotAt · line dot) = [moment] ∧
      moment.isDotAt line dot = true := by
  have hCount := countP_isDotAt hDot hInside hPicture
  rw [hStart, if_pos (Nat.zero_le _), List.countP_eq_length_filter, List.length_eq_one_iff]
    at hCount
  obtain ⟨moment, hOne⟩ := hCount
  refine ⟨moment, hOne, ?_⟩
  have hMember : moment ∈ (ppu.moments actions).filter (Moment.isDotAt · line dot) := by
    rw [hOne]
    exact List.mem_singleton_self moment
  exact (List.mem_filter.mp hMember).2

/-- The flag of vertical blanking is a window of the raster minus reads. However dots and accesses
follow each other from power on, the flag is set if and only if the beam is inside the window and
nobody has read the status register, at whichever of its addresses, since the last vertical blanking
started. From one start to the next, exactly the first read inside the window gets the flag, so at
most one does. In a picture without such reads the flag is set once, at the start of vertical
blanking, and cleared once, at the end. -/
theorem verticalBlank_iff_window (actions : List Action) :
    let ppu := ({} : Ppu).execute actions
    let history := ({} : Ppu).moments actions
    (ppu.status.verticalBlank = true ↔ ppu.beam.inBlankWindow = true ∧
      ∀ moment ∈ sinceBlank history, moment.readsStatus = false) ∧
    (∀ memory address, (Action.read memory (.ofAddress address)).readsStatus =
      decide (address.toNat % 8 = 2)) ∧
    (∀ earlier first during later, history = earlier ++ first :: (during ++ later) →
      first.startsBlank = true → (∀ moment ∈ during, moment.startsBlank = false) →
      during.filter Moment.answersBlank = (during.find? Moment.readsInWindow).toList ∧
        during.countP Moment.answersBlank ≤ 1) ∧
    (∀ picture, ppu.beam.position = 0 → IsPicture (ppu.moments picture) →
      (∀ moment ∈ ppu.moments picture, moment.readsStatus = false) →
      (∃ moment : Moment, (ppu.moments picture).filter Moment.setsBlank = [moment] ∧
        moment.isDotAt 241 1 = true) ∧
      ∃ moment : Moment, (ppu.moments picture).filter Moment.clearsBlank = [moment] ∧
        moment.isDotAt 261 1 = true) := by
  intro ppu history
  have hFlag : FlagOf history ppu := flagOf_powerOn.execute actions
  refine ⟨hFlag, readsStatus_ofAddress, ?_, ?_⟩
  · intro earlier first during later hHistory hFirst hDuring
    obtain ⟨before, rest, -, -, hRest⟩ := exists_of_moments_eq_append hHistory
    cases rest with
    | nil => simp at hRest
    | cons action rest =>
        obtain ⟨rfl, hTail⟩ := List.cons.inj hRest
        obtain ⟨middle, after, -, rfl, -⟩ := exists_of_moments_eq_append hTail
        have hFilter := filter_answersBlank_of_start hFirst hDuring
        refine ⟨hFilter, ?_⟩
        rw [List.countP_eq_length_filter, hFilter]
        exact Option.length_toList_le
  · intro picture hStart hPicture hReads
    have hOutside : ppu.beam.inBlankWindow = false := by
      rw [Beam.inBlankWindow, hStart]
      rfl
    have hClear : ppu.status.verticalBlank = false := by
      rw [Bool.eq_false_iff]
      intro hSet
      exact absurd ((hFlag.mp hSet).1.symm.trans hOutside) Bool.noConfusion
    have hChanges := setsBlank_eq_startsBlank (hClear.trans hOutside.symm) hReads
    rw [List.filter_congr fun moment h => (hChanges moment h).1,
      List.filter_congr fun moment h => (hChanges moment h).2]
    exact ⟨exists_filter_isDotAt (by decide) (by decide) hStart hPicture,
      exists_filter_isDotAt (by decide) (by decide) hStart hPicture⟩

/-- A run of dots finds the unit where a shorter run leaves it. -/
theorem before_of_mem_moments_replicate {ppu : Ppu} {memory : UInt16 → UInt8} {dots : Nat}
    {moment : Moment} (hMoment : moment ∈ ppu.moments (List.replicate dots (.dot memory))) :
    ∃ earlier < dots, moment = ⟨ppu.run memory earlier, .dot memory⟩ := by
  induction dots generalizing ppu with
  | zero => exact nomatch hMoment
  | succ dots ih =>
      rw [List.replicate_succ, moments_cons, List.mem_cons] at hMoment
      cases hMoment with
      | inl hHere => exact ⟨0, Nat.succ_pos dots, hHere⟩
      | inr hLater =>
          obtain ⟨earlier, hEarlier, rfl⟩ := ih hLater
          exact ⟨earlier + 1, Nat.succ_lt_succ hEarlier, rfl⟩

/-- From the first dot of a picture, all its dots make it up. -/
theorem isPicture_replicate {ppu : Ppu} (memory : UInt16 → UInt8)
    (hStart : ppu.beam.position = 0) :
    IsPicture (ppu.moments
      (List.replicate (ppu.beam.lastDot ppu.mask.rendering + 1) (.dot memory))) := by
  let last := ppu.beam.lastDot ppu.mask.rendering
  have hInside (dots : Nat) (hDots : dots ≤ last) :
      (Moment.mk (ppu.run memory dots) (.dot memory)).endsPicture = decide (dots = last) := by
    obtain ⟨hPosition, -, hOdd, hMask⟩ := run_inside ppu memory dots (by omega)
    have hLast : (ppu.run memory dots).beam.lastDot (ppu.run memory dots).mask.rendering =
        last := by
      rw [Beam.lastDot, hOdd, hMask]
      rfl
    have hEnds := Beam.endsFrame_iff (ppu.run memory dots).beam
      (ppu.run memory dots).mask.rendering (by omega)
    rw [hLast, hPosition, hStart, Nat.zero_add] at hEnds
    exact decide_eq_decide.mpr hEnds
  refine ⟨ppu.moments (List.replicate last (.dot memory)), ⟨ppu.run memory last, .dot memory⟩,
    ?_, ?_, ?_⟩
  · rw [List.replicate_succ', moments_append, execute_replicate_dot]
    rfl
  · rw [hInside last (Nat.le_refl _), decide_eq_true rfl]
  · intro moment hMoment
    obtain ⟨earlier, hEarlier, rfl⟩ := before_of_mem_moments_replicate hMoment
    rw [hInside earlier (Nat.le_of_lt hEarlier), decide_eq_false (Nat.ne_of_lt hEarlier)]

/-- The start of a vertical blanking and two reads of the status register behind it, as the end of a
longer history. -/
theorem reads_history {before : List Action} (memory : UInt16 → UInt8)
    (hPosition : (({} : Ppu).execute before).beam.position = 82182) :
    let start : Moment := ⟨({} : Ppu).execute before, .dot memory⟩
    let first : Moment := ⟨start.after, .read memory .status⟩
    let second : Moment := ⟨first.after, .read memory .status⟩
    ({} : Ppu).moments (before ++ [.dot memory, .read memory .status, .read memory .status]) =
        ({} : Ppu).moments before ++ start :: ([first, second] ++ []) ∧
      start.startsBlank = true ∧ (∀ moment ∈ [first, second], moment.startsBlank = false) ∧
      first.readsInWindow = true := by
  intro start first second
  have hStart : start.startsBlank = true := by
    rw [Moment.startsBlank_dot, decide_eq_true_eq, Beam.at_iff_position _ (by decide)]
    exact hPosition
  refine ⟨?_, hStart, ?_, ?_⟩
  · rw [moments_append]
    rfl
  · intro moment hMoment
    rw [List.mem_cons, List.mem_singleton] at hMoment
    rcases hMoment with rfl | rfl <;> rfl
  · have hWindow := start.inBlankWindow_after
    rw [hStart, (start.inBlankWindow_before.1 hStart).2] at hWindow
    exact hWindow

/-- Of two reads in the first vertical blanking the first one gets the flag. In a picture that is
rendered and not read, the flag is set once and cleared once. -/
theorem verticalBlank_read_twice :
    let start : Moment := ⟨({} : Ppu).execute (enabledFor 82182), .dot fun _ => 0⟩
    let first : Moment := ⟨start.after, .read (fun _ => 0) .status⟩
    let second : Moment := ⟨first.after, .read (fun _ => 0) .status⟩
    let rendered := ({} : Ppu).execute [.write .mask 0x18]
    let picture := rendered.moments (List.replicate 89342 (.dot fun _ => 0))
    ({} : Ppu).moments (enabledFor 82182 ++ [.dot fun _ => 0, .read (fun _ => 0) .status,
        .read (fun _ => 0) .status]) =
        ({} : Ppu).moments (enabledFor 82182) ++ start :: ([first, second] ++ []) ∧
      start.startsBlank = true ∧ (∀ moment ∈ [first, second], moment.startsBlank = false) ∧
      [first, second].filter Moment.answersBlank = [first] ∧
      rendered.beam.position = 0 ∧ IsPicture picture ∧
      (∀ moment ∈ picture, moment.readsStatus = false) ∧
      (∃ moment : Moment, picture.filter Moment.setsBlank = [moment] ∧
        moment.isDotAt 241 1 = true) ∧
      ∃ moment : Moment, picture.filter Moment.clearsBlank = [moment] ∧
        moment.isDotAt 261 1 = true := by
  intro start first second rendered picture
  obtain ⟨hHistory, hStart, hDuring, hInside⟩ :=
    reads_history (fun _ => 0) (position_enabledFor (show 82182 ≤ 89341 by decide))
  have hPicture : IsPicture picture := by
    have hLast : rendered.beam.lastDot rendered.mask.rendering + 1 = 89342 := rfl
    have hFirst : rendered.beam.position = 0 := rfl
    have hWhole := isPicture_replicate (fun _ => 0) hFirst
    rw [hLast] at hWhole
    exact hWhole
  have hReads : ∀ moment ∈ picture, moment.readsStatus = false := by
    intro moment hMoment
    obtain ⟨earlier, -, rfl⟩ := before_of_mem_moments_replicate hMoment
    rfl
  have hAnswers := (verticalBlank_iff_window _).2.2.1 _ _ _ _ hHistory hStart hDuring
  have hOnce := (verticalBlank_iff_window [.write .mask 0x18]).2.2.2 _ rfl hPicture hReads
  refine ⟨hHistory, hStart, hDuring, ?_, rfl, hPicture, hReads, hOnce⟩
  rw [hAnswers.1, List.find?_cons_of_pos hInside]
  rfl

end Nes.Ppu
