import Nes.Proofs.Ppu.Picture
import Nes.Proofs.Ppu.PictureLength

/-! The pixels of a picture. The screen takes no part in what the picture unit does, so a run is the
same in front of every screen. It draws each pixel of a picture once, when the beam is on it, and
nothing is left of what the screen had before. -/

namespace Nes.Ppu

/-- The colour of a dot of the picture. A unit that does not render shows the first colour. -/
def dotColour (ppu : Ppu) : UInt8 :=
  if ppu.mask.rendering then ppu.shownColour else ppu.palette.read ppu.mask 0

/-- The mask lets six bits of a colour through at most. -/
theorem Palette.read_lt (palette : Palette) (mask : Mask) (address : UInt16) :
    palette.read mask address < 0x40 := by
  have hBits : mask.colourBits.toNat < 0x40 := by
    rw [Mask.colourBits]
    split <;> decide
  rw [UInt8.lt_iff_toNat_lt, Palette.read, UInt8.toNat_and]
  exact Nat.lt_of_le_of_lt Nat.and_le_right hBits

/-- A colour has six bits. -/
theorem dotColour_lt (ppu : Ppu) : ppu.dotColour < 0x40 := by
  rw [dotColour, shownColour]
  split <;> exact Palette.read_lt _ _ _

/-- Every place of the screen has its pixel. -/
theorem pixel_lt {x y : Nat} (hX : x < 256) (hY : y < 240) : 256 * y + x < 61440 := by
  omega

/-- The pixel in a column and a row of a picture. -/
def pixelAt (picture : Vector UInt8 61440) (x y : Nat) (hX : x < 256) (hY : y < 240) : UInt8 :=
  picture.get ⟨256 * y + x, pixel_lt hX hY⟩

/-- Two pictures with the same pixels are the same. -/
theorem picture_ext {first second : Vector UInt8 61440}
    (hSame : ∀ x y hX hY, pixelAt first x y hX hY = pixelAt second x y hX hY) :
    first = second := by
  refine Vector.ext fun place hPlace => ?_
  have hPixel := hSame (place % 256) (place / 256) (Nat.mod_lt _ (by decide)) (by omega)
  simp only [pixelAt, Nat.div_add_mod] at hPixel
  exact hPixel

namespace Screen

/-- Draws the pixel under the beam, if there is one. -/
def drawAt (screen : Screen) (beam : Beam) (colour : UInt8) : Screen :=
  if onPixel : beam.OnPixel then screen.draw beam onPixel colour else screen

/-- Drawing leaves the picture that is shown alone. -/
theorem front_drawAt (screen : Screen) (beam : Beam) (colour : UInt8) :
    (screen.drawAt beam colour).front = screen.front := by
  rw [drawAt]
  split <;> rfl

/-- A pixel is drawn at the dot behind its column. -/
theorem pixelAt_drawAt (screen : Screen) (beam : Beam) (colour : UInt8) {x y : Nat} (hX : x < 256)
    (hY : y < 240) : pixelAt (screen.drawAt beam colour).back x y hX hY =
      if beam.At y (x + 1) then colour else pixelAt screen.back x y hX hY := by
  by_cases onPixel : beam.OnPixel
  · have hDrawn : screen.drawAt beam colour = screen.draw beam onPixel colour := dif_pos onPixel
    have hFirst : 1 ≤ beam.dot.val := onPixel.2.1
    have hLast : beam.dot.val ≤ 256 := onPixel.2.2
    have hPlace : 256 * beam.line.val + beam.column = 256 * y + x ↔ beam.At y (x + 1) := by
      simp only [Beam.At, Beam.column]
      omega
    rw [hDrawn, ← ite_congr (propext hPlace) (fun _ => rfl) fun _ => rfl]
    exact screen.back_draw beam onPixel colour (pixel_lt hX hY)
  · have hSame : screen.drawAt beam colour = screen := dif_neg onPixel
    have hElsewhere : ¬ beam.At y (x + 1) := by
      rintro ⟨hLine, hDot⟩
      exact onPixel ⟨by omega, by omega, by omega⟩
    rw [hSame, if_neg hElsewhere]

end Screen

namespace Moment

/-- What the action does to a screen. -/
def drawOn (moment : Moment) (screen : Screen) : Screen :=
  if moment.action.isDot then
    let drawn := screen.drawAt moment.before.beam moment.before.dotColour
    if moment.before.beam.EndsFrame moment.before.mask.rendering then drawn.swap else drawn
  else screen

variable {moment : Moment}

/-- The last dot of a picture draws nothing and exchanges the two pictures. -/
theorem drawOn_of_endsPicture (hEnds : moment.endsPicture = true) (screen : Screen) :
    moment.drawOn screen = screen.swap := by
  obtain ⟨memory, hDot⟩ := exists_dot_of_endsPicture hEnds
  have hEnd := endsFrame_of_endsPicture hEnds
  have hOff : ¬ moment.before.beam.OnPixel := by
    have := hEnd.1
    omega
  simp only [drawOn, hDot, Action.isDot, if_pos, if_pos hEnd, Screen.drawAt, dif_neg hOff]

/-- Inside a picture a dot draws its pixel, and everything else draws nothing. -/
theorem drawOn_of_goesOn (hGoesOn : moment.endsPicture = false) (screen : Screen) :
    moment.drawOn screen = if moment.action.isDot then
      screen.drawAt moment.before.beam moment.before.dotColour else screen := by
  rw [drawOn]
  split
  · rename_i hDot
    rw [endsPicture, hDot, Bool.true_and, decide_eq_false_iff_not] at hGoesOn
    rw [if_neg hGoesOn]
  · rfl

theorem front_drawOn (hGoesOn : moment.endsPicture = false) (screen : Screen) :
    (moment.drawOn screen).front = screen.front := by
  rw [drawOn_of_goesOn hGoesOn]
  split
  · exact screen.front_drawAt _ _
  · rfl

/-- Inside a picture a pixel changes only with its dot. -/
theorem pixelAt_drawOn (hGoesOn : moment.endsPicture = false) (screen : Screen) {x y : Nat}
    (hX : x < 256) (hY : y < 240) : pixelAt (moment.drawOn screen).back x y hX hY =
      if moment.isDotAt y (x + 1) then moment.before.dotColour
      else pixelAt screen.back x y hX hY := by
  rw [drawOn_of_goesOn hGoesOn, isDotAt]
  cases moment.action.isDot with
  | true =>
      rw [if_pos rfl, Bool.true_and, screen.pixelAt_drawAt _ _ hX hY]
      simp only [decide_eq_true_eq]
  | false => rw [if_neg Bool.false_ne_true, Bool.false_and, if_neg Bool.false_ne_true]

/-- The dots of a line that is shown are not the last ones of a picture. -/
theorem not_isDotAt_of_endsPicture (hEnds : moment.endsPicture = true) {line dot : Nat}
    (hLine : line < 240) : moment.isDotAt line dot = false := by
  have hEnd : moment.before.beam.line.val = 261 := (endsFrame_of_endsPicture hEnds).1
  rw [isDotAt, decide_eq_false, Bool.and_false]
  rintro ⟨hHere, -⟩
  omega

end Moment

def withScreen (ppu : Ppu) (screen : Screen) : Ppu :=
  { ppu with screen }

section Dot

variable (ppu : Ppu) (screen : Screen) (memory : UInt16 → UInt8)

theorem screen_render :
    (ppu.render memory).screen = ppu.screen.drawAt ppu.beam ppu.shownColour := by
  simp only [render, Screen.drawAt, shownColour]
  split <;> rfl

theorem drawBackdrop_eq : ppu.drawBackdrop =
    ppu.withScreen (ppu.screen.drawAt ppu.beam (ppu.palette.read ppu.mask 0)) := by
  rw [drawBackdrop, Screen.drawAt]
  split <;> rfl

theorem render_withScreen : (ppu.withScreen screen).render memory =
    (ppu.render memory).withScreen (screen.drawAt ppu.beam ppu.shownColour) :=
  congrArg (ppu.render memory).withScreen ((ppu.withScreen screen).screen_render memory)

theorem drawBackdrop_withScreen : (ppu.withScreen screen).drawBackdrop =
    ppu.drawBackdrop.withScreen (screen.drawAt ppu.beam (ppu.palette.read ppu.mask 0)) := by
  rw [drawBackdrop_eq, drawBackdrop_eq]
  rfl

theorem finishDot_withScreen : (ppu.withScreen screen).finishDot =
    ppu.finishDot.withScreen
      (if ppu.beam.EndsFrame ppu.mask.rendering then screen.swap else screen) :=
  rfl

/-- A dot does the same in front of any screen, apart from what it draws. -/
theorem tick_withScreen : (ppu.withScreen screen).tick memory =
    (ppu.tick memory).withScreen ((Moment.mk ppu (.dot memory)).drawOn screen) := by
  have hDraws : (Moment.mk ppu (.dot memory)).drawOn screen =
      if ppu.beam.EndsFrame ppu.mask.rendering then (screen.drawAt ppu.beam ppu.dotColour).swap
      else screen.drawAt ppu.beam ppu.dotColour := rfl
  have hMask : (ppu.withScreen screen).mask = ppu.mask := rfl
  rw [hDraws, tick, tick, dotColour, hMask]
  by_cases hRendering : ppu.mask.rendering = true
  · rw [if_pos hRendering, if_pos hRendering, if_pos hRendering, render_withScreen,
      finishDot_withScreen]
    rfl
  · rw [if_neg hRendering, if_neg hRendering, if_neg hRendering, drawBackdrop_withScreen,
      finishDot_withScreen, drawBackdrop_eq]
    rfl

end Dot

/-- An action does the same in front of any screen, apart from what it draws. -/
theorem apply_withScreen (ppu : Ppu) (screen : Screen) (action : Action) :
    (ppu.withScreen screen).apply action =
      (ppu.apply action).withScreen ((Moment.mk ppu action).drawOn screen) := by
  cases action with
  | dot memory => exact ppu.tick_withScreen screen memory
  | read memory register =>
      cases register with
      | data =>
          have hScroll : (ppu.withScreen screen).scroll = ppu.scroll := rfl
          simp only [apply, read, hScroll]
          split <;> rfl
      | _ => rfl
  | write register value => cases register <;> rfl
  | poll => rfl

/-- The screen behind a moment is that before it with what the moment draws. -/
theorem Moment.screen_after (moment : Moment) :
    moment.after.screen = moment.drawOn moment.before.screen :=
  congrArg Ppu.screen (apply_withScreen moment.before moment.before.screen moment.action)

/-- What a history draws on a screen. -/
def Screen.drawAll (screen : Screen) (history : List Moment) : Screen :=
  history.foldl (fun screen moment => moment.drawOn screen) screen

theorem Screen.drawAll_append (screen : Screen) (first second : List Moment) :
    screen.drawAll (first ++ second) = (screen.drawAll first).drawAll second :=
  List.foldl_append

theorem Screen.drawAll_singleton (screen : Screen) (moment : Moment) :
    screen.drawAll [moment] = moment.drawOn screen := rfl

section Picture

variable {history : List Moment}

/-- As long as no picture ends, the one that is shown stays. -/
theorem Screen.front_drawAll (hGoesOn : ∀ moment ∈ history, moment.endsPicture = false)
    (screen : Screen) : (screen.drawAll history).front = screen.front := by
  induction history generalizing screen with
  | nil => rfl
  | cons moment history ih =>
      rw [List.forall_mem_cons] at hGoesOn
      exact (ih hGoesOn.2 _).trans (Moment.front_drawOn hGoesOn.1 screen)

/-- Inside a picture a pixel has the colour of the last of its dots. -/
theorem Screen.pixelAt_drawAll (hGoesOn : ∀ moment ∈ history, moment.endsPicture = false)
    (screen : Screen) {x y : Nat} (hX : x < 256) (hY : y < 240) :
    pixelAt (screen.drawAll history).back x y hX hY =
      (history.filter (Moment.isDotAt · y (x + 1))).foldl (fun _ moment => moment.before.dotColour)
        (pixelAt screen.back x y hX hY) := by
  induction history generalizing screen with
  | nil => rfl
  | cons moment history ih =>
      rw [List.forall_mem_cons] at hGoesOn
      have hRest := ih hGoesOn.2 (moment.drawOn screen)
      rw [Moment.pixelAt_drawOn hGoesOn.1 screen hX hY] at hRest
      rw [List.filter_cons]
      refine hRest.trans ?_
      cases moment.isDotAt y (x + 1) <;> rfl

/-- The end of a picture shows what was drawn, and the next one is drawn over the picture that was
shown. -/
theorem Screen.back_drawAll_of_isPicture (hPicture : IsPicture history) (screen : Screen) :
    (screen.drawAll history).back = screen.front := by
  obtain ⟨during, last, rfl, hLast, hDuring⟩ := hPicture
  rw [drawAll_append, drawAll_singleton, Moment.drawOn_of_endsPicture hLast]
  exact front_drawAll hDuring screen

/-- A pixel that is drawn once in a picture is shown with its colour, whatever was on the screen
before. -/
theorem Screen.front_drawAll_of_isPicture (hPicture : IsPicture history) (screen : Screen)
    {x y : Nat} (hX : x < 256) (hY : y < 240) {moment : Moment}
    (hOnce : history.filter (Moment.isDotAt · y (x + 1)) = [moment]) :
    pixelAt (screen.drawAll history).front x y hX hY = moment.before.dotColour := by
  obtain ⟨during, last, rfl, hLast, hDuring⟩ := hPicture
  have hDrawn : (screen.drawAll (during ++ [last])).front = (screen.drawAll during).back := by
    rw [drawAll_append, drawAll_singleton, Moment.drawOn_of_endsPicture hLast]
    rfl
  have hBefore : during.filter (Moment.isDotAt · y (x + 1)) = [moment] := by
    rwa [List.filter_append, List.filter_cons, Moment.not_isDotAt_of_endsPicture hLast hY,
      if_neg Bool.false_ne_true, List.filter_nil, List.append_nil] at hOnce
  rw [hDrawn, pixelAt_drawAll hDuring screen hX hY, hBefore, List.foldl_cons, List.foldl_nil]

end Picture

section WholePicture

variable {ppu : Ppu} {actions : List Action}

/-- In a whole picture each pixel has its dot once, and is shown with the colour of it. -/
theorem exists_dot_of_pixel (hStart : ppu.beam.position = 0)
    (hPicture : IsPicture (ppu.moments actions)) {x y : Nat} (hX : x < 256) (hY : y < 240) :
    ∃ moment : Moment, (ppu.moments actions).filter (Moment.isDotAt · y (x + 1)) = [moment] ∧
      ∀ screen : Screen,
        pixelAt (screen.drawAll (ppu.moments actions)).front x y hX hY =
          moment.before.dotColour := by
  have hDot : x + 1 < 341 := by omega
  have hInside : 341 * y + (x + 1) < 89340 := by omega
  obtain ⟨moment, hOnce, -⟩ := exists_filter_isDotAt hDot hInside hStart hPicture
  exact ⟨moment, hOnce, fun screen => screen.front_drawAll_of_isPicture hPicture hX hY hOnce⟩

/-- A whole picture is the same on any screen. -/
theorem Screen.front_drawAll_congr (hStart : ppu.beam.position = 0)
    (hPicture : IsPicture (ppu.moments actions)) (first second : Screen) :
    (first.drawAll (ppu.moments actions)).front =
      (second.drawAll (ppu.moments actions)).front := by
  refine picture_ext fun x y hX hY => ?_
  obtain ⟨moment, -, hColour⟩ := exists_dot_of_pixel hStart hPicture hX hY
  exact (hColour first).trans (hColour second).symm

/-- While a picture is drawn, the one that is shown stays. -/
theorem frame_before_of_goesOn
    (hGoesOn : ∀ moment ∈ ppu.moments actions, moment.endsPicture = false) :
    (ppu.execute actions).frame = ppu.frame ∧
      ∀ moment ∈ ppu.moments actions, moment.before.frame = ppu.frame := by
  induction actions generalizing ppu with
  | nil => exact ⟨rfl, fun _ hMoment => nomatch hMoment⟩
  | cons action actions ih =>
      rw [moments_cons, List.forall_mem_cons] at hGoesOn ⊢
      have hHere : (ppu.apply action).frame = ppu.frame := Moment.frame_after_of_goesOn hGoesOn.1
      obtain ⟨hEnd, hBefore⟩ := ih hGoesOn.2
      refine ⟨hEnd.trans hHere, rfl, fun moment hMoment => ?_⟩
      exact (hBefore moment hMoment).trans hHere

/-- Up to its last dot a picture leaves the one that is shown as it was. -/
theorem frame_before_of_isPicture (hPicture : IsPicture (ppu.moments actions)) :
    ∀ moment ∈ ppu.moments actions, moment.before.frame = ppu.frame := by
  obtain ⟨during, last, hHistory, -, hDuring⟩ := hPicture
  obtain ⟨first, second, -, rfl, hLast⟩ := exists_of_moments_eq_append hHistory
  obtain ⟨hFrame, hBefore⟩ := frame_before_of_goesOn hDuring
  rw [hHistory]
  intro moment hMoment
  rw [List.mem_append, List.mem_singleton] at hMoment
  obtain hEarlier | rfl := hMoment
  · exact hBefore moment hEarlier
  · cases second with
    | nil => simp at hLast
    | cons action second =>
        rw [← (List.cons.inj hLast).1]
        exact hFrame

end WholePicture

end Nes.Ppu
