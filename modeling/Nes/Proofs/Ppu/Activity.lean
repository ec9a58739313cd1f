import Nes.Ppu.Access
import Nes.Ppu.Tick

/-! Interleavings of everything that happens to the picture unit: its dots, the accesses of the
processor and the polls of its interrupt. A history keeps the state before each action. -/

namespace Nes.Ppu

/-- One thing that happens to the picture unit. The memory outside may be another one each time. -/
inductive Action where
  | dot (memory : UInt16 → UInt8)
  | read (memory : UInt16 → UInt8) (register : Register)
  | write (register : Register) (value : UInt8)
  | poll

namespace Action

def isDot : Action → Bool
  | dot _ => true
  | _ => false

def isPoll : Action → Bool
  | poll => true
  | _ => false

def dots (actions : List Action) : Nat :=
  actions.countP isDot

theorem dots_cons (action : Action) (actions : List Action) :
    dots (action :: actions) = action.isDot.toNat + dots actions := by
  rw [dots, List.countP_cons]
  cases action.isDot <;> simp [dots, Nat.add_comm]

theorem dots_append (first second : List Action) :
    dots (first ++ second) = dots first + dots second :=
  List.countP_append

end Action

def apply (ppu : Ppu) : Action → Ppu
  | .dot memory => ppu.tick memory
  | .read memory register => ppu.read memory register
  | .write register value => ppu.write register value
  | .poll => ppu.pollNmi.2

def execute : Ppu → List Action → Ppu
  | ppu, [] => ppu
  | ppu, action :: actions => (ppu.apply action).execute actions

/-- An action together with the state in which it finds the picture unit. -/
structure Moment where
  before : Ppu
  action : Action

namespace Moment

def after (moment : Moment) : Ppu :=
  moment.before.apply moment.action

/-- The action is the dot at the given place of the raster. -/
def isDotAt (moment : Moment) (line dot : Nat) : Bool :=
  moment.action.isDot && decide (moment.before.beam.At line dot)

end Moment

/-- The actions in order, each with the state that it finds. -/
def moments : Ppu → List Action → List Moment
  | _, [] => []
  | ppu, action :: actions => ⟨ppu, action⟩ :: (ppu.apply action).moments actions

@[simp] theorem execute_nil (ppu : Ppu) : ppu.execute [] = ppu := rfl

@[simp] theorem execute_cons (ppu : Ppu) (action : Action) (actions : List Action) :
    ppu.execute (action :: actions) = (ppu.apply action).execute actions := rfl

theorem execute_append (ppu : Ppu) (first second : List Action) :
    ppu.execute (first ++ second) = (ppu.execute first).execute second := by
  induction first generalizing ppu with
  | nil => rfl
  | cons action first ih => exact ih (ppu.apply action)

/-- Dots over one memory are the same as a counted run. -/
theorem execute_replicate_dot (ppu : Ppu) (memory : UInt16 → UInt8) (dots : Nat) :
    ppu.execute (List.replicate dots (.dot memory)) = ppu.run memory dots := by
  induction dots generalizing ppu with
  | zero => rfl
  | succ dots ih => exact ih (ppu.tick memory)

@[simp] theorem moments_nil (ppu : Ppu) : ppu.moments [] = [] := rfl

@[simp] theorem moments_cons (ppu : Ppu) (action : Action) (actions : List Action) :
    ppu.moments (action :: actions) = ⟨ppu, action⟩ :: (ppu.apply action).moments actions := rfl

theorem moments_append (ppu : Ppu) (first second : List Action) :
    ppu.moments (first ++ second) = ppu.moments first ++ (ppu.execute first).moments second := by
  induction first generalizing ppu with
  | nil => rfl
  | cons action first ih => exact congrArg (_ :: ·) (ih (ppu.apply action))

/-- A history that is cut in two consists of the histories of two runs. -/
theorem exists_of_moments_eq_append {ppu : Ppu} {actions : List Action}
    {earlier later : List Moment} (hCut : ppu.moments actions = earlier ++ later) :
    ∃ first second, actions = first ++ second ∧ ppu.moments first = earlier ∧
      (ppu.execute first).moments second = later := by
  induction earlier generalizing ppu actions with
  | nil => exact ⟨[], actions, rfl, rfl, hCut⟩
  | cons moment earlier ih =>
      cases actions with
      | nil => simp at hCut
      | cons action actions =>
          obtain ⟨hMoment, hRest⟩ := List.cons.inj hCut
          obtain ⟨first, second, rfl, hFirst, hSecond⟩ := ih hRest
          refine ⟨action :: first, second, rfl, ?_, hSecond⟩
          rw [moments_cons, hFirst, hMoment]

/-- What holds of a state and is kept by every action holds after every run. -/
theorem execute_induction {p : Ppu → Prop} (hStep : ∀ ppu action, p ppu → p (ppu.apply action))
    {ppu : Ppu} (hStart : p ppu) (actions : List Action) : p (ppu.execute actions) := by
  induction actions generalizing ppu with
  | nil => exact hStart
  | cons action actions ih => exact ih (hStep ppu action hStart)

/-- What holds of a state and the history that led to it holds after every run, if every action
keeps it. -/
theorem history_induction {p : List Moment → Ppu → Prop}
    (hStep : ∀ history ppu action, p history ppu →
      p (history ++ [⟨ppu, action⟩]) (ppu.apply action))
    {history : List Moment} {ppu : Ppu} (hStart : p history ppu) (actions : List Action) :
    p (history ++ ppu.moments actions) (ppu.execute actions) := by
  induction actions generalizing history ppu with
  | nil =>
      rw [moments_nil, List.append_nil]
      exact hStart
  | cons action actions ih =>
      have hRest := ih (hStep history ppu action hStart)
      rw [List.append_assoc, List.singleton_append] at hRest
      exact hRest

section Access

variable (ppu : Ppu) (memory : UInt16 → UInt8) (register : Register) (value : UInt8)

@[simp] theorem beam_read : (ppu.read memory register).beam = ppu.beam := by
  cases register <;> simp only [read]
  split <;> rfl

@[simp] theorem beam_write : (ppu.write register value).beam = ppu.beam := by
  cases register <;> rfl

@[simp] theorem control_read : (ppu.read memory register).control = ppu.control := by
  cases register <;> simp only [read]
  split <;> rfl

@[simp] theorem nmi_read : (ppu.read memory register).nmi = ppu.nmi := by
  cases register <;> simp only [read]
  split <;> rfl

/-- Only the status register has a flag that reading changes. -/
theorem verticalBlank_read : (ppu.read memory register).status.verticalBlank =
    (ppu.status.verticalBlank && decide (register ≠ .status)) := by
  cases register <;> simp only [read] <;> try simp
  split <;> rfl

@[simp] theorem status_write : (ppu.write register value).status = ppu.status := by
  cases register <;> rfl

/-- Only a write to the control register can raise an interrupt. -/
theorem nmi_write : (ppu.write register value).nmi =
    if register = .control then ppu.nmi.signal (ppu.write register value).nmiLine else ppu.nmi := by
  cases register <;> rfl

theorem control_write_of_ne (hRegister : register ≠ .control) :
    (ppu.write register value).control = ppu.control := by
  cases register with
  | control => exact absurd rfl hRegister
  | _ => rfl

end Access

/-- Only dots move the beam. -/
theorem beam_apply (ppu : Ppu) (action : Action) :
    (ppu.apply action).beam =
      match action with
      | .dot _ => ppu.beam.next ppu.mask.rendering
      | _ => ppu.beam := by
  cases action with
  | dot memory => exact beam_tick ppu memory
  | read memory register => exact beam_read ppu memory register
  | write register value => exact beam_write ppu register value
  | poll => rfl

/-- Vertical blanking starts and ends on different lines. -/
theorem Beam.not_at_preRender_of_at_verticalBlank {beam : Beam}
    (hStart : beam.At Beam.verticalBlankLine 1) : ¬ beam.At Beam.preRenderLine 1 :=
  fun hEnd => absurd (hStart.1.symm.trans hEnd.1) (by decide)

/-- The end of vertical blanking clears the flags of the sprites, and no other place of the raster
changes them. -/
theorem Status.spriteFlags_tick (status : Status) (beam : Beam) :
    (status.tick beam).spriteOverflow =
        (status.spriteOverflow && !decide (beam.At Beam.preRenderLine 1)) ∧
      (status.tick beam).spriteZeroHit =
        (status.spriteZeroHit && !decide (beam.At Beam.preRenderLine 1)) := by
  rw [Status.tick]
  by_cases hStart : beam.At Beam.verticalBlankLine 1
  · rw [if_pos hStart, decide_eq_false (Beam.not_at_preRender_of_at_verticalBlank hStart),
      Bool.not_false, Bool.and_true, Bool.and_true]
    exact ⟨rfl, rfl⟩
  · rw [if_neg hStart]
    by_cases hEnd : beam.At Beam.preRenderLine 1
    · rw [if_pos hEnd, decide_eq_true hEnd, Bool.not_true, Bool.and_false, Bool.and_false]
      exact ⟨rfl, rfl⟩
    · rw [if_neg hEnd, decide_eq_false hEnd, Bool.not_false, Bool.and_true, Bool.and_true]
      exact ⟨rfl, rfl⟩

/-- Only a unit that renders changes the status register on a dot, apart from what the place of the
raster does. -/
theorem status_tick (ppu : Ppu) (memory : UInt16 → UInt8) :
    (ppu.tick memory).status =
      (if ppu.mask.rendering then (ppu.render memory).status else ppu.status).tick ppu.beam := by
  rw [tick]
  by_cases hRendering : ppu.mask.rendering = true
  · rw [if_pos hRendering, if_pos hRendering]
    rfl
  · have hStill : ppu.drawBackdrop.status = ppu.status ∧ ppu.drawBackdrop.beam = ppu.beam := by
      simp only [drawBackdrop]
      split <;> exact ⟨rfl, rfl⟩
    rw [if_neg hRendering, if_neg hRendering, finishDot, hStill.1, hStill.2]

/-- A dot sets the flag of vertical blanking on line 241 and clears it on line 261. -/
theorem verticalBlank_tick (ppu : Ppu) (memory : UInt16 → UInt8) :
    (ppu.tick memory).status.verticalBlank =
      if ppu.beam.At Beam.verticalBlankLine 1 then true
      else if ppu.beam.At Beam.preRenderLine 1 then false
      else ppu.status.verticalBlank := by
  have hDrawn : (if ppu.mask.rendering then (ppu.render memory).status
      else ppu.status).verticalBlank = ppu.status.verticalBlank := by
    split <;> rfl
  rw [status_tick, Status.tick]
  split
  · rfl
  · split
    · rfl
    · exact hDrawn

end Nes.Ppu
