import Nes.Proofs.Ppu.Raster

/-! The dots that are left out. Every second picture is one dot shorter if it is rendered at its
end, and nothing else moves the beam away from the dots that were processed. -/

namespace Nes.Ppu

/-- The action is a rendered dot right before the last one of its picture. -/
def Moment.rendersEnd (moment : Moment) : Bool :=
  moment.isDotAt Beam.preRenderLine 339 && moment.before.mask.byte &&& 0x18 != 0

theorem Moment.rendersEnd_eq (moment : Moment) : moment.rendersEnd =
    (moment.isDotAt Beam.preRenderLine 339 && moment.before.mask.rendering) := by
  have hRendering : (moment.before.mask.byte &&& 0x18 != 0) = moment.before.mask.rendering := by
    rw [Bool.eq_iff_iff, Mask.rendering_iff, bne_iff_ne]
  rw [rendersEnd, hRendering]

/-- Rendering was on at the dot before the last one of a picture. -/
def renderedAtEnd (history : List Moment) (picture : Nat) : Bool :=
  history.any fun moment => moment.rendersEnd && moment.before.beam.frames.toNat == picture

/-- Among the first complete pictures, those with an odd number that were rendered at their end. -/
def shortPictures (history : List Moment) (complete : Nat) : Nat :=
  (List.range complete).countP fun picture => picture % 2 == 1 && renderedAtEnd history picture

theorem renderedAtEnd_concat (history : List Moment) (moment : Moment) (picture : Nat) :
    renderedAtEnd (history ++ [moment]) picture = (renderedAtEnd history picture ||
      (moment.rendersEnd && moment.before.beam.frames.toNat == picture)) := by
  simp only [renderedAtEnd, List.any_append, List.any_cons, List.any_nil, Bool.or_false]

/-- The next complete picture is short if it is odd and was rendered at its end. -/
theorem shortPictures_succ (history : List Moment) (complete : Nat) :
    shortPictures history (complete + 1) = shortPictures history complete +
      (complete % 2 == 1 && renderedAtEnd history complete).toNat := by
  rw [shortPictures, List.range_succ, List.countP_append, List.countP_singleton]
  cases complete % 2 == 1 && renderedAtEnd history complete <;> rfl

/-- At most every second picture is short. -/
theorem shortPictures_le (history : List Moment) (complete : Nat) :
    shortPictures history complete ≤ complete / 2 := by
  induction complete with
  | zero => exact Nat.le_refl 0
  | succ complete ih =>
      rw [shortPictures_succ]
      by_cases hOdd : complete % 2 = 1
      · have := Bool.toNat_le (complete % 2 == 1 && renderedAtEnd history complete)
        omega
      · rw [beq_eq_false_iff_ne.mpr hOdd, Bool.false_and, Bool.toNat_false]
        omega

/-- What happens in later pictures does not make earlier ones short. -/
theorem shortPictures_concat (history : List Moment) (moment : Moment) {complete : Nat}
    (hLater : moment.rendersEnd = true → complete ≤ moment.before.beam.frames.toNat) :
    shortPictures (history ++ [moment]) complete = shortPictures history complete := by
  refine List.countP_congr fun picture hPicture => ?_
  rw [List.mem_range] at hPicture
  have hOther : (moment.rendersEnd && moment.before.beam.frames.toNat == picture) = false := by
    rw [Bool.eq_false_iff]
    intro h
    rw [Bool.and_eq_true, beq_iff_eq] at h
    have := hLater h.1
    omega
  rw [renderedAtEnd_concat, hOther, Bool.or_false]

/-- A unit that never renders has no short pictures. -/
theorem shortPictures_eq_zero {history : List Moment}
    (hDark : ∀ moment ∈ history, moment.before.mask.rendering = false) (complete : Nat) :
    shortPictures history complete = 0 := by
  rw [shortPictures, List.countP_eq_zero]
  intro picture _
  have hNone : renderedAtEnd history picture = false := by
    rw [renderedAtEnd, List.any_eq_false]
    intro moment hMoment
    rw [Moment.rendersEnd_eq, hDark moment hMoment, Bool.and_false, Bool.false_and]
    exact Bool.false_ne_true
  rw [hNone, Bool.and_false]
  exact Bool.false_ne_true

/-- The beam is accounted for by a number of dots and the short pictures of a history. -/
structure Accounted (history : List Moment) (dots : Nat) (beam : Beam) : Prop where
  odd : beam.oddFrame = (beam.frames.toNat % 2 == 1)
  past : ∀ moment ∈ history, moment.rendersEnd = true →
    moment.before.beam.frames.toNat ≤ beam.frames.toNat
  /-- A picture that was rendered at its end and still goes on has all its dots. -/
  current : ∀ moment ∈ history, moment.rendersEnd = true →
    moment.before.beam.frames.toNat = beam.frames.toNat → beam.oddFrame = false
  time : beam.time = dots + shortPictures history beam.frames.toNat

/-- Nothing has to be accounted for at power on. -/
theorem accounted_powerOn : Accounted [] 0 {} where
  odd := rfl
  past := fun _ hMoment => nomatch hMoment
  current := fun _ hMoment => nomatch hMoment
  time := rfl

namespace Accounted

variable {history : List Moment} {dots : Nat} {ppu : Ppu}

/-- The number of pictures stays far below the end of its range. -/
theorem frames_lt {beam : Beam} (hCount : Accounted history dots beam)
    (hDots : dots < 3 * UInt64.size) : beam.frames.toNat < UInt64.size - 1 := by
  have hTime := hCount.time
  have hShort := shortPictures_le history beam.frames.toNat
  simp only [Beam.time, Beam.dotsPerPicture] at hTime
  simp only [UInt64.size] at hDots ⊢
  omega

/-- A picture without an odd number, or one that was not rendered at its end, is not short. -/
theorem not_short (hCount : Accounted history dots ppu.beam) :
    (ppu.beam.frames.toNat % 2 == 1 && renderedAtEnd history ppu.beam.frames.toNat) = false := by
  rw [Bool.eq_false_iff]
  intro h
  rw [Bool.and_eq_true, renderedAtEnd, List.any_eq_true] at h
  obtain ⟨hOdd, moment, hMoment, hHere⟩ := h
  rw [Bool.and_eq_true, beq_iff_eq] at hHere
  have := hCount.current moment hMoment hHere.1 hHere.2
  rw [hCount.odd, hOdd] at this
  exact absurd this.symm Bool.false_ne_true

/-- An action that is no dot leaves the account as it is. -/
theorem access (hCount : Accounted history dots ppu.beam) {action : Action}
    (hAction : action.isDot = false) :
    Accounted (history ++ [⟨ppu, action⟩]) dots ppu.beam := by
  have hQuiet : (Moment.mk ppu action).rendersEnd = false := by
    rw [Moment.rendersEnd_eq, Moment.isDotAt, hAction, Bool.false_and, Bool.false_and]
  have hOld {p : Moment → Prop} (h : ∀ moment ∈ history, moment.rendersEnd = true → p moment) :
      ∀ moment ∈ history ++ [⟨ppu, action⟩], moment.rendersEnd = true → p moment := by
    intro moment hMoment hEnd
    rw [List.mem_append, List.mem_singleton] at hMoment
    cases hMoment with
    | inl hBefore => exact h moment hBefore hEnd
    | inr hLast =>
        rw [hLast, hQuiet] at hEnd
        exact absurd hEnd Bool.false_ne_true
  refine ⟨hCount.odd, hOld hCount.past, hOld hCount.current, ?_⟩
  rw [shortPictures_concat _ _ fun h => absurd (hQuiet.symm.trans h) Bool.false_ne_true]
  exact hCount.time

/-- A dot inside a picture moves the beam on by one. -/
theorem dot_inside (hCount : Accounted history dots ppu.beam) (memory : UInt16 → UInt8)
    (hInside : ¬ ppu.beam.EndsFrame ppu.mask.rendering) :
    Accounted (history ++ [⟨ppu, .dot memory⟩]) (dots + 1)
      (ppu.beam.next ppu.mask.rendering) := by
  have hFrames := ppu.beam.frames_next_of_not_endsFrame _ hInside
  have hOdd := ppu.beam.oddFrame_next_of_not_endsFrame _ hInside
  constructor
  · rw [hOdd, hFrames]
    exact hCount.odd
  · intro moment hMoment hEnd
    rw [List.mem_append, List.mem_singleton] at hMoment
    rw [hFrames]
    cases hMoment with
    | inl hBefore => exact hCount.past moment hBefore hEnd
    | inr hLast => exact hLast ▸ Nat.le_refl _
  · intro moment hMoment hEnd hHere
    rw [List.mem_append, List.mem_singleton] at hMoment
    rw [hFrames] at hHere
    rw [hOdd]
    cases hMoment with
    | inl hBefore => exact hCount.current moment hBefore hEnd hHere
    | inr hLast =>
        -- Here the dot could have been left out, and the picture would have ended.
        subst hLast
        rw [Moment.rendersEnd_eq, Moment.isDotAt, Bool.and_eq_true, Bool.and_eq_true,
          decide_eq_true_eq] at hEnd
        rw [Bool.eq_false_iff]
        intro hSecond
        exact hInside ⟨hEnd.1.2.1, Or.inr ⟨hEnd.1.2, hSecond, hEnd.2⟩⟩
  · have hTime := hCount.time
    have hPosition := ppu.beam.position_next_of_not_endsFrame _ hInside
    have hSame := shortPictures_concat history ⟨ppu, .dot memory⟩
      fun _ => Nat.le_refl ppu.beam.frames.toNat
    rw [Beam.time, hFrames, hSame, hPosition]
    rw [Beam.time] at hTime
    omega

/-- The last dot of a picture completes it, and the picture is short if a dot was left out. -/
theorem dot_end (hCount : Accounted history dots ppu.beam) (memory : UInt16 → UInt8)
    (hDots : dots < 3 * UInt64.size) (hEnd : ppu.beam.EndsFrame ppu.mask.rendering) :
    Accounted (history ++ [⟨ppu, .dot memory⟩]) (dots + 1)
      (ppu.beam.next ppu.mask.rendering) := by
  have hNext := ppu.beam.next_of_endsFrame _ hEnd
  have hLt := hCount.frames_lt hDots
  have hFrames : (ppu.beam.next ppu.mask.rendering).frames.toNat = ppu.beam.frames.toNat + 1 := by
    rw [hNext, UInt64.toNat_add]
    exact Nat.mod_eq_of_lt (show ppu.beam.frames.toNat + 1 < UInt64.size by omega)
  have hPast : ∀ moment ∈ history ++ [⟨ppu, .dot memory⟩], moment.rendersEnd = true →
      moment.before.beam.frames.toNat ≤ ppu.beam.frames.toNat := by
    intro moment hMoment hHere
    rw [List.mem_append, List.mem_singleton] at hMoment
    cases hMoment with
    | inl hBefore => exact hCount.past moment hBefore hHere
    | inr hLast => exact hLast ▸ Nat.le_refl _
  constructor
  · rw [hFrames, hNext, hCount.odd]
    rcases Nat.mod_two_eq_zero_or_one ppu.beam.frames.toNat with h | h
    · rw [h, show (ppu.beam.frames.toNat + 1) % 2 = 1 by omega]
      rfl
    · rw [h, show (ppu.beam.frames.toNat + 1) % 2 = 0 by omega]
      rfl
  · intro moment hMoment hHere
    have := hPast moment hMoment hHere
    omega
  · intro moment hMoment hHere hSame
    have := hPast moment hMoment hHere
    omega
  · have hTime := hCount.time
    have hPosition := ppu.beam.position_of_endsFrame _ hEnd
    have hZero : (ppu.beam.next ppu.mask.rendering).position = 0 := by
      rw [hNext]
      rfl
    -- What this dot adds to the short pictures is what it moves the beam beyond the next dot.
    have hShort : (ppu.beam.frames.toNat % 2 == 1 &&
        renderedAtEnd (history ++ [⟨ppu, .dot memory⟩]) ppu.beam.frames.toNat) =
        decide (ppu.beam.SkipsDot ppu.mask.rendering) := by
      rw [renderedAtEnd_concat, Bool.and_or_distrib_left, hCount.not_short, Bool.false_or,
        ← hCount.odd]
      simp only [Moment.rendersEnd_eq, Moment.isDotAt, Action.isDot, Bool.true_and,
        beq_self_eq_true, Bool.and_true, Beam.SkipsDot]
      cases ppu.beam.oddFrame <;> cases ppu.mask.rendering <;> simp
    have hSame := shortPictures_concat history ⟨ppu, .dot memory⟩
      fun _ => Nat.le_refl ppu.beam.frames.toNat
    rw [hFrames, shortPictures_succ, hSame, hShort, Beam.time, hFrames, hZero]
    rw [Beam.time] at hTime
    simp only [Beam.dotsPerPicture] at hTime ⊢
    split at hPosition
    · rename_i hSkip
      rw [decide_eq_true hSkip, Bool.toNat_true]
      omega
    · rename_i hSkip
      rw [decide_eq_false hSkip, Bool.toNat_false]
      omega

/-- One action keeps the account of the dots. -/
theorem apply (hCount : Accounted history dots ppu.beam) (action : Action)
    (hDots : dots < 3 * UInt64.size) :
    Accounted (history ++ [⟨ppu, action⟩]) (dots + action.isDot.toNat) (ppu.apply action).beam := by
  rw [beam_apply]
  cases action with
  | dot memory =>
      by_cases hEnd : ppu.beam.EndsFrame ppu.mask.rendering
      · exact hCount.dot_end memory hDots hEnd
      · exact hCount.dot_inside memory hEnd
  | _ => exact hCount.access rfl

/-- The account stays right over a run that is not too long. -/
theorem execute (hCount : Accounted history dots ppu.beam) (actions : List Action)
    (hDots : dots + Action.dots actions < 3 * UInt64.size) :
    Accounted (history ++ ppu.moments actions) (dots + Action.dots actions)
      (ppu.execute actions).beam := by
  induction actions generalizing history dots ppu with
  | nil =>
      rw [moments_nil, List.append_nil]
      exact hCount
  | cons action actions ih =>
      rw [Action.dots_cons] at hDots
      have hRest := ih (hCount.apply action (by omega)) (by omega)
      rw [List.append_assoc, List.singleton_append] at hRest
      rw [moments_cons, execute_cons, Action.dots_cons, ← Nat.add_assoc]
      exact hRest

end Accounted

/-- After a run from power on the beam is ahead of the dots by the short pictures. -/
theorem time_execute (actions : List Action) (hDots : Action.dots actions < 3 * UInt64.size) :
    let beam := (({} : Ppu).execute actions).beam
    beam.time = Action.dots actions +
      shortPictures (({} : Ppu).moments actions) beam.frames.toNat := by
  have hStart : Accounted [] 0 ({} : Ppu).beam := accounted_powerOn
  have hCount := hStart.execute actions (by omega)
  rw [List.nil_append, Nat.zero_add] at hCount
  exact hCount.time

end Nes.Ppu
