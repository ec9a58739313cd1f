import Nes.Proofs.Ppu.BlankWindow
import Nes.Proofs.Ppu.ShortPictures

/-! The length of a picture, counted in dots, with any accesses between them. A picture ends with
its last dot, which shows it, and nothing else changes the picture that is shown. -/

namespace Nes.Ppu

namespace Moment

variable (moment : Moment)

theorem endsFrame_of_endsPicture {moment : Moment} (hEnds : moment.endsPicture = true) :
    moment.before.beam.EndsFrame moment.before.mask.rendering := by
  simp only [endsPicture, Bool.and_eq_true, decide_eq_true_eq] at hEnds
  exact hEnds.2

/-- Only a dot can end a picture. -/
theorem exists_dot_of_endsPicture {moment : Moment} (hEnds : moment.endsPicture = true) :
    ∃ memory, moment.action = .dot memory := by
  rcases moment with ⟨ppu, action⟩
  cases action with
  | dot memory => exact ⟨memory, rfl⟩
  | _ => simp [endsPicture, Action.isDot] at hEnds

/-- Behind its last dot a picture is complete and the next one starts. -/
theorem beam_after_of_endsPicture {moment : Moment} (hEnds : moment.endsPicture = true) :
    moment.after.beam.position = 0 ∧
      moment.after.beam.frames = moment.before.beam.frames + 1 ∧
      moment.after.beam.oddFrame = !moment.before.beam.oddFrame := by
  obtain ⟨memory, hDot⟩ := exists_dot_of_endsPicture hEnds
  have hNext : moment.after.beam = moment.before.beam.next moment.before.mask.rendering := by
    rw [after, hDot, beam_apply]
  rw [hNext, Beam.next_of_endsFrame _ _ (endsFrame_of_endsPicture hEnds)]
  exact ⟨rfl, rfl, rfl⟩

/-- Inside a picture a dot moves the beam on by one, and everything else leaves it where it is. -/
theorem beam_after_of_goesOn {moment : Moment} (hGoesOn : moment.endsPicture = false) :
    moment.after.beam.position = moment.before.beam.position + moment.action.isDot.toNat ∧
      moment.after.beam.frames = moment.before.beam.frames ∧
      moment.after.beam.oddFrame = moment.before.beam.oddFrame := by
  rcases moment with ⟨ppu, action⟩
  simp only [after, beam_apply]
  cases action with
  | dot memory =>
      have hInside : ¬ ppu.beam.EndsFrame ppu.mask.rendering := of_decide_eq_false hGoesOn
      exact ⟨ppu.beam.position_next_of_not_endsFrame _ hInside,
        ppu.beam.frames_next_of_not_endsFrame _ hInside,
        ppu.beam.oddFrame_next_of_not_endsFrame _ hInside⟩
  | _ => exact ⟨rfl, rfl, rfl⟩

/-- A picture ends exactly if the number of complete pictures changes. -/
theorem endsPicture_iff_frames :
    moment.endsPicture = true ↔ moment.after.beam.frames ≠ moment.before.beam.frames := by
  cases hEnds : moment.endsPicture with
  | true =>
      rw [(beam_after_of_endsPicture hEnds).2.1]
      simp
  | false => simp [(beam_after_of_goesOn hEnds).2.1]

/-- The last dot of a picture draws nothing. The picture that was drawn is shown, and the next one
is drawn over the one that was shown. -/
theorem screen_after_of_endsPicture {moment : Moment} (hEnds : moment.endsPicture = true) :
    moment.after.screen.front = moment.before.screen.back ∧
      moment.after.screen.back = moment.before.screen.front := by
  obtain ⟨memory, hDot⟩ := exists_dot_of_endsPicture hEnds
  have hEnd := endsFrame_of_endsPicture hEnds
  have hOff : ¬ moment.before.beam.OnPixel := by
    have := hEnd.1
    omega
  have hSwap : moment.after.screen = moment.before.screen.swap := by
    rw [after, hDot]
    simp only [apply, tick, finishDot, render, drawBackdrop, dif_neg hOff]
    split <;> rfl
  rw [hSwap]
  exact ⟨rfl, rfl⟩

/-- The picture that is shown stays until the next one is complete. -/
theorem frame_after_of_goesOn {moment : Moment} (hGoesOn : moment.endsPicture = false) :
    moment.after.frame = moment.before.frame := by
  rcases moment with ⟨ppu, action⟩
  cases action with
  | dot memory =>
      have hInside : ¬ ppu.beam.EndsFrame ppu.mask.rendering := of_decide_eq_false hGoesOn
      simp only [after, apply, frame, tick, finishDot, render, drawBackdrop]
      split
      · split <;> rfl
      · split <;> rfl
  | read memory register =>
      cases register <;> simp only [after, apply, frame, read]
      split <;> rfl
  | write register value => cases register <;> rfl
  | poll => rfl

/-- A picture ends at one of its last two dots. At the earlier one it has to be the second of a
pair, and it has to be rendered. -/
theorem endsPicture_iff_position : moment.endsPicture = true ↔ moment.action.isDot = true ∧
    (moment.before.beam.position = 89341 ∨
      moment.rendersEnd = true ∧ moment.before.beam.oddFrame = true) := by
  have hLine := moment.before.beam.line.isLt
  have hDot := moment.before.beam.dot.isLt
  have hLast : Beam.preRenderLine = 261 := rfl
  simp only [endsPicture, rendersEnd_eq, isDotAt, Bool.and_eq_true, decide_eq_true_eq,
    Beam.position]
  constructor
  · rintro ⟨hAction, hEnd, hHere | ⟨hPlace, hOdd, hRendering⟩⟩
    · exact ⟨hAction, .inl (by omega)⟩
    · exact ⟨hAction, .inr ⟨⟨⟨hAction, hPlace⟩, hRendering⟩, hOdd⟩⟩
  · rintro ⟨hAction, hHere | ⟨⟨⟨-, hPlace⟩, hRendering⟩, hOdd⟩⟩
    · exact ⟨hAction, by omega, .inl (by omega)⟩
    · exact ⟨hAction, hPlace.1, .inr ⟨hPlace, hOdd, hRendering⟩⟩

/-- The dot that can be left out is the second last one of a picture. -/
theorem position_of_rendersEnd {moment : Moment} (hEnd : moment.rendersEnd = true) :
    moment.action.isDot = true ∧ moment.before.beam.position = 89340 := by
  simp only [rendersEnd_eq, isDotAt, Bool.and_eq_true, decide_eq_true_eq] at hEnd
  refine ⟨hEnd.1.1, ?_⟩
  simpa [Beam.preRenderLine] using (Beam.at_iff_position _ (by decide)).mp hEnd.1.2

end Moment

/-- As long as no picture ends, every dot counts. -/
theorem beam_execute_of_goesOn {ppu : Ppu} {actions : List Action}
    (hGoesOn : ∀ moment ∈ ppu.moments actions, moment.endsPicture = false) :
    (ppu.execute actions).beam.position = ppu.beam.position + Action.dots actions ∧
      (ppu.execute actions).beam.frames = ppu.beam.frames ∧
      (ppu.execute actions).beam.oddFrame = ppu.beam.oddFrame := by
  induction actions generalizing ppu with
  | nil => exact ⟨rfl, rfl, rfl⟩
  | cons action actions ih =>
      rw [moments_cons, List.forall_mem_cons] at hGoesOn
      obtain ⟨hPosition, hFrames, hOdd⟩ := Moment.beam_after_of_goesOn hGoesOn.1
      obtain ⟨hRest, hRestFrames, hRestOdd⟩ := ih hGoesOn.2
      simp only [Moment.after] at hPosition hFrames hOdd
      rw [execute_cons, Action.dots_cons, hRest, hRestFrames, hRestOdd, hPosition, hFrames, hOdd]
      exact ⟨by omega, rfl, rfl⟩

/-- A run in which pictures end has a first end of a picture. -/
theorem exists_first_end {ppu : Ppu} {actions : List Action}
    (hEnds : ¬ ∀ moment ∈ ppu.moments actions, moment.endsPicture = false) :
    ∃ first memory second, actions = first ++ .dot memory :: second ∧
      (∀ moment ∈ ppu.moments first, moment.endsPicture = false) ∧
      (Moment.mk (ppu.execute first) (.dot memory)).endsPicture = true := by
  induction actions generalizing ppu with
  | nil => simp at hEnds
  | cons action actions ih =>
      cases hHere : (Moment.mk ppu action).endsPicture with
      | true =>
          obtain ⟨memory, rfl⟩ := Moment.exists_dot_of_endsPicture hHere
          exact ⟨[], memory, actions, rfl, by simp, hHere⟩
      | false =>
          have hLater : ¬ ∀ moment ∈ (ppu.apply action).moments actions,
              moment.endsPicture = false := by
            simpa [hHere] using hEnds
          obtain ⟨first, memory, second, rfl, hFirst, hEnd⟩ := ih hLater
          refine ⟨action :: first, memory, second, rfl, ?_, hEnd⟩
          rw [moments_cons, List.forall_mem_cons]
          exact ⟨hHere, hFirst⟩

/-- Each dot belongs to a picture, and a run of dots that leaves the last two dots of the picture
ahead stays inside it. -/
theorem goesOn_of_dots {ppu : Ppu} {actions : List Action}
    (hDots : ppu.beam.position + Action.dots actions ≤ 89340) :
    ∀ moment ∈ ppu.moments actions, moment.endsPicture = false := by
  refine Classical.byContradiction fun hEnds => ?_
  obtain ⟨first, memory, second, rfl, hFirst, hEnd⟩ := exists_first_end hEnds
  have hPosition := (beam_execute_of_goesOn hFirst).1
  have hLast := Beam.position_of_endsFrame _ _ (Moment.endsFrame_of_endsPicture hEnd)
  rw [Action.dots_append, Action.dots_cons, Action.isDot, Bool.toNat_true] at hDots
  simp only at hLast
  split at hLast <;> omega

/-- A run that is shorter than a picture completes one at most. The dots behind its end are then on
the next picture. -/
theorem beam_execute_short {ppu : Ppu} {actions : List Action}
    (hDots : Action.dots actions ≤ 89340) :
    (ppu.execute actions).beam.frames = ppu.beam.frames ∧
        (ppu.execute actions).beam.position = ppu.beam.position + Action.dots actions ∨
      (ppu.execute actions).beam.frames = ppu.beam.frames + 1 ∧
        (ppu.execute actions).beam.position < Action.dots actions := by
  by_cases hGoesOn : ∀ moment ∈ ppu.moments actions, moment.endsPicture = false
  · obtain ⟨hPosition, hFrames, -⟩ := beam_execute_of_goesOn hGoesOn
    exact .inl ⟨hFrames, hPosition⟩
  · obtain ⟨first, memory, second, rfl, hFirst, hEnd⟩ := exists_first_end hGoesOn
    obtain ⟨hStart, hNext, -⟩ := Moment.beam_after_of_endsPicture hEnd
    simp only [Moment.after] at hStart hNext
    rw [Action.dots_append, Action.dots_cons, Action.isDot, Bool.toNat_true] at hDots ⊢
    obtain ⟨hRest, hFrames, -⟩ := beam_execute_of_goesOn (goesOn_of_dots
      (show ((ppu.execute first).apply (.dot memory)).beam.position + Action.dots second ≤ 89340
        by omega))
    rw [execute_append, execute_cons, hFrames, hNext, (beam_execute_of_goesOn hFirst).2.1]
    exact .inr ⟨rfl, by omega⟩

/-- Pictures with an odd number are the second ones of a pair. -/
def Paired (ppu : Ppu) : Prop :=
  ppu.beam.oddFrame = true ↔ ppu.beam.frames.toNat % 2 = 1

/-- Pictures are paired from power on. -/
theorem paired_powerOn : Paired {} :=
  ⟨fun hOdd => absurd hOdd Bool.false_ne_true, fun hOdd => absurd hOdd (by decide)⟩

/-- No action breaks up the pairs. -/
theorem paired_apply (ppu : Ppu) (action : Action) (hPaired : Paired ppu) :
    Paired (ppu.apply action) := by
  let moment : Moment := ⟨ppu, action⟩
  change moment.after.beam.oddFrame = true ↔ moment.after.beam.frames.toNat % 2 = 1
  cases hEnds : moment.endsPicture with
  | true =>
      obtain ⟨-, hFrames, hOdd⟩ := Moment.beam_after_of_endsPicture hEnds
      have hCount : moment.after.beam.frames.toNat % 2 = (ppu.beam.frames.toNat + 1) % 2 := by
        rw [hFrames, UInt64.toNat_add]
        exact Nat.mod_mod_of_dvd _ (by decide)
      have hOld : ppu.beam.oddFrame = false ↔ ppu.beam.frames.toNat % 2 ≠ 1 := by
        rw [← Bool.not_eq_true]
        exact not_congr hPaired
      rw [hOdd, hCount, Bool.not_eq_true']
      refine hOld.trans ?_
      omega
  | false =>
      obtain ⟨-, hFrames, hOdd⟩ := Moment.beam_after_of_goesOn hEnds
      rw [hFrames, hOdd]
      exact hPaired

/-- The number of dots of the picture that a run starts with. The second picture of a pair is short
if it is rendered at its second last dot. -/
def pictureDots (ppu : Ppu) (history : List Moment) : Nat :=
  if ppu.beam.oddFrame && history.any Moment.rendersEnd then 89341 else 89342

section FirstEnd

variable {ppu : Ppu} {actions : List Action} {last : Moment}

/-- A picture that goes on where it could have been cut short is the first of its pair. -/
theorem oddFrame_of_rendersEnd {moment : Moment}
    (hGoesOn : ∀ moment ∈ ppu.moments actions, moment.endsPicture = false)
    (hMoment : moment ∈ ppu.moments actions) (hRenders : moment.rendersEnd = true) :
    ppu.beam.oddFrame = false := by
  obtain ⟨earlier, later, hSplit⟩ := List.append_of_mem hMoment
  obtain ⟨first, second, -, rfl, hSecond⟩ := exists_of_moments_eq_append hSplit
  have hBefore : moment.before = ppu.execute first := by
    cases second with
    | nil => simp at hSecond
    | cons action second => rw [← (List.cons.inj hSecond).1]
  have hOdd := (beam_execute_of_goesOn fun other hOther =>
    hGoesOn other (hSplit ▸ List.mem_append_left _ hOther)).2.2
  rw [← hOdd, ← hBefore, Bool.eq_false_iff]
  intro hSecondOfPair
  have hEnds := (Moment.endsPicture_iff_position moment).mpr
    ⟨(Moment.position_of_rendersEnd hRenders).1, .inr ⟨hRenders, hSecondOfPair⟩⟩
  rw [hGoesOn moment hMoment] at hEnds
  exact absurd hEnds Bool.false_ne_true

/-- The first picture that ends in a run from its first dot has the dots of a picture. -/
theorem dots_of_first_end (hStart : ppu.beam.position = 0)
    (hGoesOn : ∀ moment ∈ ppu.moments actions, moment.endsPicture = false)
    (hLast : last.before = ppu.execute actions) (hEnd : last.endsPicture = true) :
    Action.dots actions + 1 = ppu.pictureDots (ppu.moments actions ++ [last]) := by
  obtain ⟨hPosition, -, hOdd⟩ := beam_execute_of_goesOn hGoesOn
  rw [← hLast] at hPosition hOdd
  rw [Moment.endsPicture_iff_position] at hEnd
  rw [pictureDots]
  rcases hEnd.2 with hFull | ⟨hRenders, hSecond⟩
  · rw [if_neg]
    · omega
    rw [Bool.and_eq_true, List.any_eq_true]
    rintro ⟨hSecond, moment, hMoment, hRenders⟩
    rw [List.mem_append, List.mem_singleton] at hMoment
    rcases hMoment with hBefore | rfl
    · rw [oddFrame_of_rendersEnd hGoesOn hBefore hRenders] at hSecond
      exact absurd hSecond Bool.false_ne_true
    · have := (Moment.position_of_rendersEnd hRenders).2
      omega
  · have hShort := (Moment.position_of_rendersEnd hRenders).2
    rw [if_pos (by simp [← hOdd, hSecond, hRenders])]
    omega

/-- A run from the first dot of a picture completes it with the last of its dots, and not before. -/
theorem first_end_iff_dots (hStart : ppu.beam.position = 0)
    (hLast : last.before = ppu.execute actions) (hDot : last.action.isDot = true) :
    (∀ moment ∈ ppu.moments actions, moment.endsPicture = false) ∧ last.endsPicture = true ↔
      Action.dots actions + 1 = ppu.pictureDots (ppu.moments actions ++ [last]) := by
  refine ⟨fun h => dots_of_first_end hStart h.1 hLast h.2, fun hDots => ?_⟩
  have hGoesOn : ∀ moment ∈ ppu.moments actions, moment.endsPicture = false := by
    refine Classical.byContradiction fun hEnds => ?_
    -- The picture would have ended before, although it is at most one dot shorter.
    obtain ⟨first, memory, second, rfl, hFirst, hEnd⟩ := exists_first_end hEnds
    have hFirstDots := dots_of_first_end hStart hFirst rfl hEnd
    rw [Action.dots_append, Action.dots_cons, Action.isDot, Bool.toNat_true, moments_append,
      moments_cons] at hDots
    simp only [pictureDots, List.any_append, List.any_cons, List.any_nil, Bool.or_false]
      at hDots hFirstDots
    split at hFirstDots
    · rename_i hShort
      rw [Bool.and_eq_true, Bool.or_eq_true] at hShort
      rw [if_pos (by rcases hShort with ⟨hSecond, h | h⟩ <;> simp [hSecond, h])] at hDots
      omega
    · split at hDots <;> omega
  refine ⟨hGoesOn, ?_⟩
  obtain ⟨hPosition, -, hOdd⟩ := beam_execute_of_goesOn hGoesOn
  rw [← hLast] at hPosition hOdd
  rw [Moment.endsPicture_iff_position]
  refine ⟨hDot, ?_⟩
  rw [pictureDots] at hDots
  split at hDots
  · rename_i hShort
    rw [Bool.and_eq_true, List.any_eq_true] at hShort
    obtain ⟨hSecond, moment, hMoment, hRenders⟩ := hShort
    rw [List.mem_append, List.mem_singleton] at hMoment
    rcases hMoment with hBefore | rfl
    · rw [oddFrame_of_rendersEnd hGoesOn hBefore hRenders] at hSecond
      exact absurd hSecond Bool.false_ne_true
    · exact .inr ⟨hRenders, hOdd.trans hSecond⟩
  · exact .inl (by omega)

/-- The number of complete pictures stays the same exactly as long as no picture ends. -/
theorem frames_kept_iff_goesOn :
    (∀ moment ∈ ppu.moments actions, moment.after.beam.frames = ppu.beam.frames) ↔
      ∀ moment ∈ ppu.moments actions, moment.endsPicture = false := by
  induction actions generalizing ppu with
  | nil => simp
  | cons action actions ih =>
      have hHere := Moment.endsPicture_iff_frames ⟨ppu, action⟩
      rw [moments_cons, List.forall_mem_cons, List.forall_mem_cons]
      cases hEnds : (Moment.mk ppu action).endsPicture with
      | true =>
          rw [hEnds] at hHere
          simp [hHere.mp rfl]
      | false =>
          have hFrames : (ppu.apply action).beam.frames = ppu.beam.frames :=
            (Moment.beam_after_of_goesOn hEnds).2.1
          rw [← hFrames, ih]
          simp [Moment.after]

end FirstEnd

/-- Every picture has its dots. In any run from power on, the beam stays on its 341 dots and 262
lines, and every second picture is an odd one. From the first dot of a picture, whatever is done to
the registers in between, the number of complete pictures grows for the first time at dot 89342, or
at dot 89341 if it is an odd picture and rendering is on at dot 339 of the last line. It grows by
one then, the beam is at the first dot again, and the two pictures change places. Nothing else
changes the picture that is shown. -/
theorem picture_has_its_dots (earlier : List Action) :
    let ppu := ({} : Ppu).execute earlier
    ppu.beam.dot.val ≤ 340 ∧ ppu.beam.line.val ≤ 261 ∧
    (ppu.beam.oddFrame = true ↔ ppu.beam.frames.toNat % 2 = 1) ∧
    (∀ action, (ppu.apply action).beam.frames = ppu.beam.frames →
      (ppu.apply action).frame = ppu.frame) ∧
    (ppu.beam.At 0 0 → ∀ actions memory,
      let last : Moment := ⟨ppu.execute actions, .dot memory⟩
      let length := ppu.pictureDots (ppu.moments (actions ++ [.dot memory]))
      ((∀ moment ∈ ppu.moments actions, moment.after.beam.frames = ppu.beam.frames) ∧
          last.after.beam.frames ≠ ppu.beam.frames ↔ Action.dots actions + 1 = length) ∧
      (Action.dots actions + 1 = length →
        last.after.beam.frames = ppu.beam.frames + 1 ∧ last.after.beam.At 0 0 ∧
        last.after.screen.front = last.before.screen.back ∧
        last.after.screen.back = last.before.screen.front)) := by
  intro ppu
  refine ⟨by omega, by omega, execute_induction paired_apply paired_powerOn earlier, ?_, ?_⟩
  · intro action hFrames
    have hGoesOn : (Moment.mk ppu action).endsPicture = false := by
      rw [Bool.eq_false_iff, ne_eq, Moment.endsPicture_iff_frames, Moment.after]
      exact fun hEnds => hEnds hFrames
    exact Moment.frame_after_of_goesOn hGoesOn
  · intro hFirst actions memory last length
    have hStart : ppu.beam.position = 0 := by
      simpa using (Beam.at_iff_position _ (by decide)).mp hFirst
    have hLength : length = ppu.pictureDots (ppu.moments actions ++ [last]) :=
      congrArg ppu.pictureDots (moments_append ppu actions [.dot memory])
    have hFirstEnd := first_end_iff_dots hStart (rfl : last.before = ppu.execute actions) rfl
    rw [hLength, ← hFirstEnd, frames_kept_iff_goesOn, Moment.endsPicture_iff_frames]
    constructor
    · refine and_congr_right fun hGoesOn => ?_
      rw [← (beam_execute_of_goesOn hGoesOn).2.1]
    · rintro ⟨hGoesOn, hEnds⟩
      rw [← Moment.endsPicture_iff_frames] at hEnds
      obtain ⟨hPosition, hFrames, -⟩ := Moment.beam_after_of_endsPicture hEnds
      refine ⟨?_, ?_, Moment.screen_after_of_endsPicture hEnds⟩
      · rw [hFrames, ← (beam_execute_of_goesOn hGoesOn).2.1]
      · rw [Beam.at_iff_position _ (by decide)]
        exact hPosition

theorem mask_run_end (ppu : Ppu) (memory : UInt16 → UInt8) {dots : Nat}
    (hEnd : ppu.beam.position + dots = ppu.beam.lastDot ppu.mask.rendering) :
    (ppu.run memory (dots + 1)).mask = ppu.mask := by
  rw [run_succ_tick, mask_tick, (run_inside ppu memory dots (Nat.le_of_eq hEnd)).2.2.2]

/-- From power on, the background switched on, and the first picture. -/
def firstRendered : List Action :=
  .write .mask 0x08 :: List.replicate (89341 + 1) (.dot fun _ => 0)

/-- Behind the first picture the beam is at the first dot of an odd one. -/
theorem beam_firstRendered :
    (({} : Ppu).execute firstRendered).beam =
        { line := 0, dot := 0, oddFrame := true, frames := 1 } ∧
      (({} : Ppu).execute firstRendered).mask.rendering = true := by
  let ppu := ({} : Ppu).apply (.write .mask 0x08)
  have hStart : ppu.beam.position = 0 := rfl
  have hLast : ppu.beam.position + 89341 = ppu.beam.lastDot ppu.mask.rendering := by
    rw [hStart, Nat.zero_add]
    rfl
  rw [firstRendered, execute_cons, execute_replicate_dot, mask_run_end ppu _ hLast,
    (beam_run_end ppu _ hLast).2]
  exact ⟨rfl, by decide⟩

/-- An odd picture that is rendered all the time is short. -/
theorem pictureDots_of_odd (ppu : Ppu) (memory : UInt16 → UInt8) {dots : Nat}
    (hDots : dots = 89340) (hStart : ppu.beam.position = 0) (hOdd : ppu.beam.oddFrame = true)
    (hRendering : ppu.mask.rendering = true) :
    ppu.pictureDots (ppu.moments (List.replicate dots (.dot memory) ++ [.dot memory])) =
      dots + 1 := by
  have hLast : ppu.beam.lastDot ppu.mask.rendering = 89340 := by
    rw [Beam.lastDot, hOdd, hRendering]
    rfl
  obtain ⟨hPosition, -, -, hMask⟩ := run_inside ppu memory dots (by omega)
  have hPlace : (ppu.run memory dots).beam.At Beam.preRenderLine 339 := by
    rw [Beam.at_iff_position _ (by decide), hPosition, hStart, hDots]
    rfl
  rw [moments_append, execute_replicate_dot, pictureDots, hOdd, if_pos, hDots]
  simp [Moment.rendersEnd_eq, Moment.isDotAt, Action.isDot, hPlace, hMask, hRendering]

theorem dots_replicate (memory : UInt16 → UInt8) (dots : Nat) :
    Action.dots (List.replicate dots (.dot memory)) = dots := by
  rw [Action.dots, List.countP_replicate]
  rfl

/-- The second picture from power on is one dot shorter than the first if both are rendered. -/
theorem second_picture_short :
    let ppu := ({} : Ppu).execute firstRendered
    let actions := List.replicate 89340 (.dot fun _ => 0)
    let last : Moment := ⟨ppu.execute actions, .dot fun _ => 0⟩
    ppu.beam.At 0 0 ∧ Action.dots actions + 1 = 89341 ∧
      ppu.pictureDots (ppu.moments (actions ++ [.dot fun _ => 0])) = 89341 ∧
      (∀ moment ∈ ppu.moments actions, moment.after.beam.frames = ppu.beam.frames) ∧
      last.after.beam.frames = ppu.beam.frames + 1 ∧ last.after.beam.At 0 0 ∧
      last.after.screen.front = last.before.screen.back ∧
      last.after.screen.back = last.before.screen.front := by
  obtain ⟨hBeam, hRendering⟩ := beam_firstRendered
  have hFirst : (({} : Ppu).execute firstRendered).beam.At 0 0 := by
    rw [hBeam]
    exact ⟨rfl, rfl⟩
  have hLength := pictureDots_of_odd (({} : Ppu).execute firstRendered) (fun _ => 0) rfl
    (by rw [hBeam]; rfl) (by rw [hBeam]) hRendering
  have hDots := dots_replicate (fun _ => 0) 89340
  obtain ⟨hFirstTime, hEnd⟩ := (picture_has_its_dots firstRendered).2.2.2.2 hFirst
    (List.replicate 89340 (.dot fun _ => 0)) fun _ => 0
  have hSame := (congrArg (· + 1) hDots).trans hLength.symm
  exact ⟨hFirst, congrArg (· + 1) hDots, hLength, (hFirstTime.mpr hSame).1, hEnd hSame⟩

end Nes.Ppu
