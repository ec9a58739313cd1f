import Nes.Cartridge.Nrom
import Nes.Proofs.Bus.Events
import Nes.Proofs.Ppu.Drawing

/-! A picture is drawn from nothing. Whatever the two pictures of the screen were before, whatever a
program does to the registers while the beam passes, the picture that is shown at the end consists
of the colours of its own dots. -/

namespace Nes.Bus

open Ppu (Action IsPicture Moment Register Screen pixelAt)

def Event.isDot : Event → Bool
  | .dot => true
  | _ => false

variable {β : Type} [Board β]

/-- What an event does to the picture unit. -/
def pictureActions (bus : Bus β) : Event → List Action
  | .access access => bus.actionsOf access
  | .plug _ => []
  | .dot => [.dot bus.video.read]

def pictureActivity : Bus β → List Event → List Action
  | _, [] => []
  | bus, event :: events => bus.pictureActions event ++ (bus.happen event).pictureActivity events

def pictureHistory (bus : Bus β) (events : List Event) : List Moment :=
  bus.ppu.moments (bus.pictureActivity events)

variable (bus : Bus β) (screen : Screen)

/-- The picture unit behind an event is that behind the actions of the event. -/
theorem ppu_happen (event : Event) :
    (bus.happen event).ppu = bus.ppu.execute (bus.pictureActions event) := by
  cases event with
  | access access => exact bus.ppu_access access
  | _ => rfl

theorem pictureHistory_cons (event : Event) (events : List Event) :
    bus.pictureHistory (event :: events) =
      bus.ppu.moments (bus.pictureActions event) ++ (bus.happen event).pictureHistory events := by
  rw [pictureHistory, pictureActivity, Ppu.moments_append, pictureHistory, ppu_happen]

/-- The dots of a history are its dot events. -/
theorem dots_pictureActivity (events : List Event) :
    Action.dots (bus.pictureActivity events) = events.countP Event.isDot := by
  induction events generalizing bus with
  | nil => rfl
  | cons event events ih =>
      rw [pictureActivity, Action.dots_append, ih, List.countP_cons, Nat.add_comm]
      refine congrArg _ ?_
      cases event with
      | access access =>
          refine List.countP_eq_zero.mpr fun action hAction => ?_
          rw [(not_dot_of_mem_actionsOf hAction).1]
          exact Bool.false_ne_true
      | _ => rfl

/-- The bus of a picture unit in front of another screen. -/
def withScreen : Bus β :=
  { bus with ppu := bus.ppu.withScreen screen }

/-- An access does the same in front of any screen. -/
theorem access_withScreen (access : Access) :
    (bus.withScreen screen).access access = (bus.access access).withScreen screen := by
  cases access with
  | read address =>
      have hPpu (register : Register) :
          (bus.ppu.withScreen screen).read bus.video.read register =
            (bus.ppu.read bus.video.read register).withScreen screen :=
        bus.ppu.apply_withScreen screen (.read bus.video.read register)
      simp only [Bus.access, Bus.read, drive, withScreen]
      repeat' split
      all_goals first | rfl | rw [hPpu]; rfl
  | write address value =>
      have hPpu (register : Register) :
          (bus.ppu.withScreen screen).write register value =
            (bus.ppu.write register value).withScreen screen :=
        bus.ppu.apply_withScreen screen (.write register value)
      simp only [Bus.access, Bus.write, withScreen]
      repeat' split
      all_goals first | rfl | rw [hPpu]; rfl

/-- An event does the same in front of any screen, apart from what the picture unit draws. -/
theorem happen_withScreen (event : Event) :
    (bus.withScreen screen).happen event =
      (bus.happen event).withScreen
        (screen.drawAll (bus.ppu.moments (bus.pictureActions event))) := by
  cases event with
  | access access =>
      have hDrawn : screen.drawAll (bus.ppu.moments (bus.actionsOf access)) = screen := by
        cases access <;> simp only [actionsOf] <;> cases registerAt? _ <;> rfl
      rw [pictureActions, hDrawn]
      exact bus.access_withScreen screen access
  | plug source => rfl
  | dot =>
      exact congrArg (fun ppu => { bus with ppu })
        (bus.ppu.apply_withScreen screen (.dot bus.video.read))

/-- Another screen goes through all events without a trace, except for what they draw on it. -/
theorem happenAll_withScreen (events : List Event) :
    (bus.withScreen screen).happenAll events =
      (bus.happenAll events).withScreen (screen.drawAll (bus.pictureHistory events)) := by
  induction events generalizing bus screen with
  | nil => rfl
  | cons event events ih =>
      rw [happenAll_cons, happen_withScreen, ih, pictureHistory_cons, Screen.drawAll_append]
      rfl

theorem pictureActivity_append (first second : List Event) :
    bus.pictureActivity (first ++ second) =
      bus.pictureActivity first ++ (bus.happenAll first).pictureActivity second := by
  induction first generalizing bus with
  | nil => rfl
  | cons event first ih =>
      rw [List.cons_append, pictureActivity, pictureActivity, ih, List.append_assoc, happenAll_cons]

/-- The first picture of a pair has 89342 dots, whatever happens between them. -/
theorem isPicture_of_dots {bus : Bus β} {events : List Event} (hStart : bus.ppu.beam.At 0 0)
    (hFirst : bus.ppu.beam.oddFrame = false) (hDots : events.countP Event.isDot = 89341) :
    IsPicture (bus.pictureHistory (events ++ [.dot])) := by
  let actions := bus.pictureActivity events
  let last : Moment := ⟨bus.ppu.execute actions, .dot (bus.happenAll events).video.read⟩
  have hHistory : bus.pictureHistory (events ++ [.dot]) = bus.ppu.moments actions ++ [last] := by
    rw [pictureHistory, pictureActivity_append, Ppu.moments_append]
    rfl
  have hLength :
      Action.dots actions + 1 = bus.ppu.pictureDots (bus.ppu.moments actions ++ [last]) := by
    rw [bus.dots_pictureActivity, hDots, Ppu.pictureDots, hFirst, Bool.false_and]
    rfl
  have hPosition : bus.ppu.beam.position = 0 :=
    (Ppu.Beam.at_iff_position _ (by decide)).mp hStart
  obtain ⟨hGoesOn, hEnd⟩ := (Ppu.first_end_iff_dots hPosition rfl rfl).mpr hLength
  exact ⟨_, _, hHistory, hEnd, hGoesOn⟩

/-- Nothing of an earlier picture is shown again. From the first dot of a picture to its end, and
whatever happens on the bus in between, the bus does the same in front of any screen and shows the
same picture at the end. Only what the next picture is drawn over is different then. The dot of each
pixel is processed once, and the pixel changes with no other dot and is shown with the colour of
this one. No colour has more than six bits, whatever the palette holds. Before the end the picture
that is shown stays as it was. -/
theorem picture_drawn_anew {β : Type} [Board β] (bus : Bus β) (events : List Event)
    (hStart : bus.ppu.beam.At 0 0) (hPicture : IsPicture (bus.pictureHistory events)) :
    let history := bus.pictureHistory events
    let after := bus.happenAll events
    (∀ screen, let other := (bus.withScreen screen).happenAll events
      other.ppu.frame = after.ppu.frame ∧
        other = after.withScreen { after.ppu.screen with back := screen.front }) ∧
    (∀ x y hX hY, ∃ moment : Moment, history.filter (Moment.isDotAt · y (x + 1)) = [moment] ∧
      pixelAt after.ppu.frame x y hX hY = moment.before.dotColour) ∧
    (∀ moment ∈ history, moment.endsPicture = false →
      ∀ x y hX hY, moment.isDotAt y (x + 1) = false →
        pixelAt moment.after.screen.back x y hX hY =
          pixelAt moment.before.screen.back x y hX hY) ∧
    (∀ moment ∈ history, moment.before.frame = bus.ppu.frame) ∧
    ∀ x y hX hY, pixelAt after.ppu.frame x y hX hY < 0x40 := by
  intro history after
  have hOwn : after.ppu.screen = bus.ppu.screen.drawAll history :=
    congrArg (·.ppu.screen) (bus.happenAll_withScreen bus.ppu.screen events)
  have hPosition : bus.ppu.beam.position = 0 :=
    (Ppu.Beam.at_iff_position _ (by decide)).mp hStart
  have hFrame : after.ppu.frame = (bus.ppu.screen.drawAll history).front :=
    congrArg Screen.front hOwn
  have hColour (x y : Nat) (hX : x < 256) (hY : y < 240) : ∃ moment : Moment,
      history.filter (Moment.isDotAt · y (x + 1)) = [moment] ∧
        pixelAt after.ppu.frame x y hX hY = moment.before.dotColour := by
    obtain ⟨moment, hOnce, hDrawn⟩ := Ppu.exists_dot_of_pixel hPosition hPicture hX hY
    refine ⟨moment, hOnce, ?_⟩
    rw [hFrame]
    exact hDrawn bus.ppu.screen
  refine ⟨fun screen => ?_, hColour, fun moment _ hGoesOn x y hX hY hElsewhere => ?_,
    Ppu.frame_before_of_isPicture hPicture, fun x y hX hY => ?_⟩
  · have hScreen : screen.drawAll history = { after.ppu.screen with back := screen.front } := by
      rw [← screen.back_drawAll_of_isPicture hPicture, hOwn]
      exact congrArg (Screen.mk _) (screen.front_drawAll_congr hPosition hPicture _)
    have hOther := bus.happenAll_withScreen screen events
    rw [show screen.drawAll (bus.pictureHistory events) = _ from hScreen] at hOther
    exact ⟨congrArg (·.ppu.frame) hOther, hOther⟩
  · rw [moment.screen_after, Moment.pixelAt_drawOn hGoesOn, hElsewhere,
      if_neg Bool.false_ne_true]
  · obtain ⟨moment, -, hPixel⟩ := hColour x y hX hY
    rw [hPixel]
    exact moment.before.dotColour_lt

/-- A bus at the first dot of a picture, with pixels on the screen that no dot can draw. -/
def staleBus : Bus Nrom where
  ppu := {
    screen := { back := Vector.replicate 61440 0xff, front := Vector.replicate 61440 0xfe } }
  video := { cartridge := { board := ⟨⟨#[], #[], #[1, 2, 3], true, .vertical⟩⟩ } }

/-- A picture up to its last dot. Rendering is switched on before it and off in the middle of a
line, and the program stores a byte on the way. -/
def toggled : List Event :=
  .access (.write 0x2001 0x1e) :: List.replicate 40000 .dot ++
    .access (.write 0x2001 0) :: .access (.write 0x2007 0x55) :: List.replicate 49341 .dot

/-- A picture with rendering switched on and off in the middle of it, in front of two screens. -/
theorem picture_drawn_anew_toggled :
    let events := toggled ++ [.dot]
    let history := staleBus.pictureHistory events
    let frame := (staleBus.happenAll events).ppu.frame
    staleBus.ppu.beam.At 0 0 ∧ IsPicture history ∧
      ((staleBus.withScreen {}).happenAll events).ppu.frame = frame ∧
      (∀ x y hX hY, ∃ moment : Moment, history.filter (Moment.isDotAt · y (x + 1)) = [moment] ∧
        pixelAt frame x y hX hY = moment.before.dotColour) ∧
      (∀ moment ∈ history, moment.before.frame = staleBus.ppu.frame) ∧
      ∀ x y hX hY, pixelAt frame x y hX hY < 0x40 := by
  intro events history frame
  have hStart : staleBus.ppu.beam.At 0 0 := ⟨rfl, rfl⟩
  have hPicture : IsPicture history := by
    refine isPicture_of_dots hStart rfl ?_
    rw [toggled, List.countP_append, List.countP_cons, List.countP_cons, List.countP_cons,
      List.countP_replicate, List.countP_replicate]
    rfl
  obtain ⟨hSame, hColour, -, hShown, hRange⟩ := picture_drawn_anew staleBus events hStart hPicture
  exact ⟨hStart, hPicture, (hSame {}).1, hColour, hShown, hRange⟩

end Nes.Bus
