import Nes.Cartridge.Nrom
import Nes.Proofs.Bus.Events

/-! How a program reads controllers. The strobe line loads both shift registers when it falls, and
after that each register gives its buttons one by one, whatever else happens on the bus. -/

namespace Nes

def Socket.address : Socket → UInt16
  | .first => Bus.firstPadAddress
  | .second => Bus.secondPadAddress

def Pads.byte (pads : Pads) : Socket → UInt8
  | .first => pads.first.toByte
  | .second => pads.second.toByte

namespace Controllers

def register (controllers : Controllers) : Socket → UInt8
  | .first => controllers.first
  | .second => controllers.second

/-- The buttons of a socket that a sample finds now. There are none if nothing is plugged in. -/
def pressed (controllers : Controllers) (socket : Socket) : UInt8 :=
  match controllers.source with
  | none => 0
  | some source => (source controllers.samples).byte socket

/-- The controllers behind a sample that is made only if a condition holds. -/
def sampleIf (controllers : Controllers) (condition : Bool) : Controllers :=
  if condition then controllers.sample else controllers

theorem register_sample (controllers : Controllers) (socket : Socket) :
    controllers.sample.register socket = controllers.pressed socket := by
  cases hSource : controllers.source with
  | none =>
      simp only [sample, pressed, hSource]
      cases socket <;> rfl
  | some source =>
      simp only [sample, pressed, hSource]
      cases socket <;> rfl

theorem register_sampleIf (controllers : Controllers) (condition : Bool) (socket : Socket) :
    (controllers.sampleIf condition).register socket =
      if condition then controllers.pressed socket else controllers.register socket := by
  cases condition with
  | false => rfl
  | true => exact controllers.register_sample socket

/-- A sample leaves the strobe line and the source as they are, and asks the source once. -/
theorem sampleIf_eq (controllers : Controllers) (condition : Bool) :
    (controllers.sampleIf condition).source = controllers.source ∧
      (controllers.sampleIf condition).strobe = controllers.strobe ∧
      (controllers.sampleIf condition).samples =
        controllers.samples + (controllers.source.isSome && condition).toNat := by
  cases hSource : controllers.source <;> cases condition <;>
    simp [sampleIf, sample, hSource]

/-- A falling strobe samples the buttons one last time. -/
theorem write_eq (controllers : Controllers) (value : UInt8) :
    controllers.write value =
      { controllers.sampleIf (controllers.strobe && !value.toNat.testBit 0) with
        strobe := value.toNat.testBit 0 } := by
  have hBit : (value &&& 0x01 != 0) = value.toNat.testBit 0 := by
    rw [Bool.eq_iff_iff, bne_iff_ne, Ne, ← UInt8.toNat_inj, UInt8.toNat_and, Nat.testBit_zero]
    simp [Nat.and_one_is_mod]
  rw [write, hBit]
  rfl

/-- The byte that a read gives, and the controllers behind it. A read moves the register of its own
socket. -/
theorem read_eq (controllers : Controllers) (socket : Socket) :
    let found := controllers.sampleIf controllers.strobe
    (controllers.read socket).1 = found.register socket &&& 1 ∧
      (controllers.read socket).2.source = found.source ∧
      (controllers.read socket).2.strobe = found.strobe ∧
      (controllers.read socket).2.samples = found.samples ∧
      ∀ other, (controllers.read socket).2.register other =
        if socket = other then shifted (found.register other) else found.register other := by
  cases socket with
  | first => exact ⟨rfl, rfl, rfl, rfl, fun other => by cases other <;> rfl⟩
  | second => exact ⟨rfl, rfl, rfl, rfl, fun other => by cases other <;> rfl⟩

/-- A shift register moves by one place and fills up with ones. -/
theorem testBit_shifted (register : UInt8) {place : Nat} (hPlace : place < 8) :
    (shifted register).toNat.testBit place =
      if place = 7 then true else register.toNat.testBit (place + 1) := by
  have hOne : ∀ place < 8, (0x80 : Nat).testBit place = decide (place = 7) := by decide
  have hShift : (1 : UInt8).toNat % 8 = 1 := rfl
  rw [shifted, UInt8.toNat_or, UInt8.toNat_shiftRight, hShift, Nat.testBit_or,
    Nat.testBit_shiftRight, Nat.add_comm]
  rw [show (0x80 : UInt8).toNat = 0x80 from rfl, hOne place hPlace]
  by_cases hLast : place = 7 <;> simp [hLast]

end Controllers

namespace Bus

namespace Event

/-- What the strobe line is told, if an event is a write that tells it something. -/
def strobe? : Event → Option Bool
  | .access (.write address value) =>
    if address = firstPadAddress then some (value.toNat.testBit 0) else none
  | _ => none

/-- Whether controllers are plugged in behind an event that plugs some in or takes them away. -/
def plugged? : Event → Option Bool
  | .plug source => some source.isSome
  | _ => none

def readsPad (event : Event) (socket : Socket) : Bool :=
  match event with
  | .access (.read address) => decide (address = socket.address)
  | _ => false

/-- The buttons are sampled at an event, given the strobe line before it: when the line falls, and
when a controller is read while it is on. -/
def samples (event : Event) (strobe : Bool) : Bool :=
  strobe && (event.strobe? == some false || event.readsPad .first || event.readsPad .second)

/-- How often some events ask for the buttons, given whether controllers are plugged in and the
strobe line before them. -/
def calls : (plugged strobe : Bool) → List Event → Nat
  | _, _, [] => 0
  | plugged, strobe, event :: events =>
    (plugged && event.samples strobe).toNat +
      calls (event.plugged?.getD plugged) (event.strobe?.getD strobe) events

end Event

end Bus

namespace Controllers

open Bus

def after (controllers : Controllers) : Event → Controllers
  | .access (.read address) =>
    if address = firstPadAddress ∨ address = secondPadAddress then
      (controllers.read (Socket.ofAddress address)).2
    else controllers
  | .access (.write address value) =>
    if address = firstPadAddress then controllers.write value else controllers
  | .plug source => { controllers with source }
  | .dot => controllers

/-- An event reads a controller, drives the strobe line, changes what is plugged in, or has nothing
to do with controllers. -/
theorem event_cases (event : Event) :
    (∃ socket, event = .access (.read (Socket.address socket))) ∨
      (∃ value, event = .access (.write firstPadAddress value)) ∨
      (∃ source, event = .plug source) ∨
      (event.strobe? = none ∧ event.plugged? = none ∧
        (∀ socket, event.readsPad socket = false) ∧
        ∀ controllers : Controllers, controllers.after event = controllers) := by
  cases event with
  | access access =>
      cases access with
      | read address =>
          by_cases hPad : address = firstPadAddress ∨ address = secondPadAddress
          · obtain rfl | rfl := hPad
            · exact .inl ⟨.first, rfl⟩
            · exact .inl ⟨.second, rfl⟩
          · refine .inr (.inr (.inr ⟨rfl, rfl, fun socket => decide_eq_false ?_, fun controllers =>
              if_neg hPad⟩))
            rintro rfl
            cases socket with
            | first => exact hPad (.inl rfl)
            | second => exact hPad (.inr rfl)
      | write address value =>
          by_cases hPad : address = firstPadAddress
          · exact .inr (.inl ⟨value, by rw [hPad]⟩)
          · exact .inr (.inr (.inr ⟨if_neg hPad, rfl, fun _ => rfl, fun _ => if_neg hPad⟩))
  | plug source => exact .inr (.inr (.inl ⟨source, rfl⟩))
  | dot => exact .inr (.inr (.inr ⟨rfl, rfl, fun _ => rfl, fun _ => rfl⟩))

theorem after_readPad (controllers : Controllers) (socket : Socket) :
    controllers.after (.access (.read socket.address)) = (controllers.read socket).2 := by
  cases socket <;> rfl

/-- The strobe is as the last write to it has left it. -/
theorem strobe_after (controllers : Controllers) (event : Event) :
    (controllers.after event).strobe = event.strobe?.getD controllers.strobe := by
  obtain ⟨socket, rfl⟩ | ⟨value, rfl⟩ | ⟨source, rfl⟩ | ⟨hStrobe, -, -, hKept⟩ := event_cases event
  · rw [after_readPad, (controllers.read_eq socket).2.2.1, (controllers.sampleIf_eq _).2.1]
    rfl
  · rw [after, if_pos rfl, write_eq]
    rfl
  · rfl
  · rw [hKept, hStrobe, Option.getD_none]

theorem source_after (controllers : Controllers) (event : Event) :
    (controllers.after event).source.isSome =
      event.plugged?.getD controllers.source.isSome := by
  obtain ⟨socket, rfl⟩ | ⟨value, rfl⟩ | ⟨source, rfl⟩ | ⟨-, hSource, -, hKept⟩ := event_cases event
  · rw [after_readPad, (controllers.read_eq socket).2.1, (controllers.sampleIf_eq _).1]
    rfl
  · rw [after, if_pos rfl, write_eq]
    exact congrArg Option.isSome (controllers.sampleIf_eq _).1
  · rfl
  · rw [hKept, hSource, Option.getD_none]

/-- The source is asked once at each event that samples the buttons, and at no other one. -/
theorem samples_after (controllers : Controllers) (event : Event) :
    (controllers.after event).samples = controllers.samples +
      (controllers.source.isSome && event.samples controllers.strobe).toNat := by
  obtain ⟨socket, rfl⟩ | ⟨value, rfl⟩ | ⟨source, rfl⟩ | ⟨hStrobe, -, hReads, hKept⟩ :=
    event_cases event
  · have hSamples : (Event.access (.read socket.address)).samples controllers.strobe =
        controllers.strobe := by
      cases socket <;> exact Bool.and_true _
    rw [after_readPad, (controllers.read_eq socket).2.2.2.1, (controllers.sampleIf_eq _).2.2,
      hSamples]
  · have hSamples : (Event.access (.write firstPadAddress value)).samples controllers.strobe =
        (controllers.strobe && !value.toNat.testBit 0) := by
      simp only [Event.samples, Event.strobe?, Event.readsPad, if_true, Bool.or_false]
      cases value.toNat.testBit 0 <;> rfl
    rw [after, if_pos rfl, write_eq, hSamples]
    exact (controllers.sampleIf_eq _).2.2
  · simp [after, Event.samples, Event.strobe?, Event.readsPad]
  · simp [hKept, Event.samples, hStrobe, hReads]

/-- The buttons of both sockets were loaded, and each register has been read a number of times since
then. -/
structure Serial (controllers : Controllers) (buttons : Socket → UInt8) (reads : Socket → Nat) :
    Prop where
  strobe : controllers.strobe = false
  register : ∀ socket, ∀ place < 8, (controllers.register socket).toNat.testBit place =
    if place + reads socket < 8 then (buttons socket).toNat.testBit (place + reads socket) else true

namespace Serial

variable {controllers : Controllers} {buttons : Socket → UInt8} {reads : Socket → Nat}

/-- The falling strobe line loads the registers. -/
theorem load (hStrobe : controllers.strobe = true) {value : UInt8}
    (hValue : value.toNat.testBit 0 = false) :
    Serial (controllers.write value) controllers.pressed fun _ => 0 := by
  rw [write_eq, hStrobe, hValue]
  refine ⟨rfl, fun socket place hPlace => ?_⟩
  rw [Nat.add_zero, if_pos hPlace, ← controllers.register_sample]
  cases socket <;> rfl

/-- As long as the strobe stays low, a read takes one bit of its own controller. -/
theorem after (hSerial : Serial controllers buttons reads) {event : Event}
    (hEvent : event.strobe? ≠ some true) :
    Serial (controllers.after event) buttons fun socket =>
      reads socket + (event.readsPad socket).toNat := by
  obtain ⟨read, rfl⟩ | ⟨value, rfl⟩ | ⟨source, rfl⟩ | ⟨-, -, hReads, hKept⟩ := event_cases event
  · obtain ⟨-, -, hStrobe, -, hRegister⟩ := controllers.read_eq read
    simp only [hSerial.strobe] at hStrobe hRegister
    rw [after_readPad]
    refine ⟨hStrobe.trans hSerial.strobe, fun socket place hPlace => ?_⟩
    have hReads : (Event.access (.read read.address)).readsPad socket = decide (read = socket) := by
      cases read <;> cases socket <;> rfl
    rw [hRegister, hReads]
    by_cases hSocket : read = socket
    · rw [if_pos hSocket, decide_eq_true hSocket, testBit_shifted _ hPlace]
      by_cases hLast : place = 7
      · rw [if_pos hLast, if_neg (by rw [Bool.toNat_true]; omega)]
      · rw [if_neg hLast]
        refine (hSerial.register socket (place + 1) (by omega)).trans ?_
        rw [Nat.add_right_comm, Nat.add_assoc, Bool.toNat_true]
    · rw [if_neg hSocket, decide_eq_false hSocket]
      exact hSerial.register socket place hPlace
  · have hLow : value.toNat.testBit 0 = false := by
      simpa [Event.strobe?] using hEvent
    rw [Controllers.after, if_pos rfl, write_eq, hSerial.strobe, hLow]
    exact ⟨rfl, hSerial.register⟩
  · exact ⟨hSerial.strobe, hSerial.register⟩
  · rw [hKept]
    refine ⟨hSerial.strobe, fun socket => ?_⟩
    rw [hReads]
    exact hSerial.register socket

end Serial

end Controllers

namespace Bus

variable {β : Type} [Board β]

/-- A port gives one bit of its controller in front of what was on the bus. -/
theorem drive_pad (bus : Bus β) {address : UInt16}
    (hPad : address = firstPadAddress ∨ address = secondPadAddress) :
    bus.drive address =
      let answer := bus.controllers.read (Socket.ofAddress address)
      { bus with controllers := answer.2, latch := (bus.latch &&& 0xe0) ||| answer.1 } := by
  have hRam : ¬address < 0x2000 := by
    rcases hPad with rfl | rfl <;> decide
  have hPpu : ¬address < 0x4000 := by
    rcases hPad with rfl | rfl <;> decide
  rw [drive, if_neg hRam, if_neg hPpu, if_pos hPad]

/-- The controllers behind an event see nothing of the rest of the bus. -/
theorem controllers_happen (bus : Bus β) (event : Event) :
    (bus.happen event).controllers = bus.controllers.after event := by
  cases event with
  | access access =>
      cases access with
      | read address =>
          simp only [happen, Bus.access, Bus.read, Controllers.after]
          split
          · rename_i hPad
            rw [drive_pad bus hPad]
          · rename_i hPad
            simp only [drive, if_neg hPad]
            repeat' split
            all_goals rfl
      | write address value =>
          simp only [happen, Bus.access, Bus.write, Controllers.after]
          by_cases hPad : address = firstPadAddress
          · rw [hPad]
            rfl
          · simp only [if_neg hPad]
            repeat' split
            all_goals rfl
  | plug source => rfl
  | dot => rfl

/-- The strobe stays high until a write lowers it. -/
theorem strobe_happenAll {bus : Bus β} (hStrobe : bus.controllers.strobe = true)
    {events : List Event} (hEvents : ∀ event ∈ events, event.strobe? ≠ some false) :
    (bus.happenAll events).controllers.strobe = true := by
  induction events generalizing bus with
  | nil => exact hStrobe
  | cons event events ih =>
      obtain ⟨hEvent, hRest⟩ := List.forall_mem_cons.mp hEvents
      refine ih ?_ hRest
      rw [controllers_happen, Controllers.strobe_after, hStrobe]
      cases hTold : event.strobe? with
      | none => rfl
      | some strobe =>
          cases strobe with
          | false => exact absurd hTold hEvent
          | true => rfl

/-- With a low strobe, a number of events takes as many bits of a controller as it has reads of it.
-/
theorem serial_happenAll {bus : Bus β} {buttons : Socket → UInt8} {reads : Socket → Nat}
    (hSerial : bus.controllers.Serial buttons reads) {events : List Event}
    (hEvents : ∀ event ∈ events, event.strobe? ≠ some true) :
    (bus.happenAll events).controllers.Serial buttons fun socket =>
      reads socket + events.countP (·.readsPad socket) := by
  induction events generalizing bus reads with
  | nil => exact hSerial
  | cons event events ih =>
      obtain ⟨hEvent, hRest⟩ := List.forall_mem_cons.mp hEvents
      have hNext := hSerial.after hEvent
      rw [← controllers_happen] at hNext
      have hAll := ih hNext hRest
      refine ⟨hAll.strobe, fun socket => ?_⟩
      have hCount : reads socket + (event :: events).countP (·.readsPad socket) =
          reads socket + (event.readsPad socket).toNat + events.countP (·.readsPad socket) := by
        rw [List.countP_cons]
        cases event.readsPad socket
        · simp
        · simp
          omega
      rw [hCount]
      exact hAll.register socket

/-- The callback is called once for each event that samples the buttons. -/
theorem samples_happenAll (bus : Bus β) (events : List Event) :
    (bus.happenAll events).controllers.samples = bus.controllers.samples +
      Event.calls bus.controllers.source.isSome bus.controllers.strobe events := by
  induction events generalizing bus with
  | nil => rfl
  | cons event events ih =>
      rw [happenAll_cons, ih, controllers_happen, Controllers.samples_after,
        Controllers.source_after, Controllers.strobe_after, Event.calls, Nat.add_assoc]

/-- A controller drives the lowest bit, the next four are zero, and the upper three are still on the
bus. -/
theorem testBit_read_pad (bus : Bus β) (socket : Socket) {place : Nat} (hPlace : place < 8) :
    (bus.read socket.address).1.toNat.testBit place =
      if place = 0 then
        ((bus.controllers.sampleIf bus.controllers.strobe).register socket).toNat.testBit 0
      else decide (5 ≤ place) && bus.latch.toNat.testBit place := by
  have hUpper : ∀ place < 8, (0xe0 : Nat).testBit place = decide (5 ≤ place) := by decide
  have hLowest : ∀ place < 8, (1 : Nat).testBit place = decide (place = 0) := by decide
  have hRead : (bus.read socket.address).1 =
      (bus.latch &&& 0xe0) ||| (bus.controllers.read socket).1 := by
    rw [Bus.read, drive_pad bus (by cases socket <;> simp [Socket.address])]
    cases socket <;> rfl
  rw [hRead, (bus.controllers.read_eq socket).1, UInt8.toNat_or, UInt8.toNat_and, UInt8.toNat_and,
    Nat.testBit_or, Nat.testBit_and, Nat.testBit_and]
  rw [show (0xe0 : UInt8).toNat = 0xe0 from rfl, show (1 : UInt8).toNat = 1 from rfl,
    hUpper place hPlace, hLowest place hPlace]
  by_cases hFirst : place = 0 <;> simp [hFirst, Bool.and_comm]

/-- The protocol of the controllers, for any order of accesses, dots and changes of what is plugged
in. Reads behind a falling strobe line give the buttons that were held down when it fell, bit by bit
for each socket, and ones behind the eighth; while the line is on they give the first button of a
new sample. The other bits of a read do not come from the controller. The source of the buttons is
asked once whenever the line falls and once for each read while it is on, and never else. -/
theorem pads_protocol (bus : Bus β) :
    (∀ (high low : UInt8) (held between : List Event) (socket : Socket),
      high.toNat.testBit 0 = true → low.toNat.testBit 0 = false →
      (∀ event ∈ held, event.strobe? ≠ some false) →
      (∀ event ∈ between, event.strobe? ≠ some true) →
      let edge := bus.happenAll (.access (.write 0x4016 high) :: held)
      let now := edge.happenAll (.access (.write 0x4016 low) :: between)
      let reads := between.countP (·.readsPad socket)
      (now.read socket.address).1.toNat.testBit 0 =
        if reads < 8 then (edge.controllers.pressed socket).toNat.testBit reads else true) ∧
    (∀ (high : UInt8) (held : List Event) (socket : Socket),
      high.toNat.testBit 0 = true → (∀ event ∈ held, event.strobe? ≠ some false) →
      let now := bus.happenAll (.access (.write 0x4016 high) :: held)
      (now.read socket.address).1.toNat.testBit 0 =
        (now.controllers.pressed socket).toNat.testBit 0) ∧
    (∀ (socket : Socket) (place : Nat), 0 < place → place < 8 →
      (bus.read socket.address).1.toNat.testBit place =
        (decide (5 ≤ place) && bus.latch.toNat.testBit place)) ∧
    ∀ events : List Event, (bus.happenAll events).controllers.samples = bus.controllers.samples +
      Event.calls bus.controllers.source.isSome bus.controllers.strobe events := by
  have hHigh {high : UInt8} {held : List Event} (hBit : high.toNat.testBit 0 = true)
      (hHeld : ∀ event ∈ held, event.strobe? ≠ some false) :
      (bus.happenAll (.access (.write 0x4016 high) :: held)).controllers.strobe = true := by
    rw [happenAll_cons]
    refine strobe_happenAll ?_ hHeld
    rw [controllers_happen, Controllers.strobe_after]
    exact hBit
  refine ⟨fun high low held between socket hBit hLow hHeld hBetween => ?_,
    fun high held socket hBit hHeld => ?_, fun socket place hFirst hPlace => ?_,
    fun events => samples_happenAll bus events⟩
  · intro edge now reads
    have hLoaded : (edge.happen (.access (.write 0x4016 low))).controllers.Serial
        edge.controllers.pressed fun _ => 0 := by
      rw [controllers_happen]
      exact .load (hHigh hBit hHeld) hLow
    have hSerial : now.controllers.Serial edge.controllers.pressed fun socket =>
        0 + between.countP (·.readsPad socket) := serial_happenAll hLoaded hBetween
    have hRegister := hSerial.register socket 0 (by decide)
    simp only [Nat.zero_add] at hRegister
    rw [testBit_read_pad now socket (by decide), if_pos rfl, hSerial.strobe]
    exact hRegister
  · intro now
    rw [testBit_read_pad now socket (by decide), if_pos rfl, Controllers.register_sampleIf,
      hHigh hBit hHeld, if_pos rfl]
  · rw [testBit_read_pad bus socket hPlace, if_neg (Nat.ne_of_gt hFirst)]

/-- A bus with controllers on which the first button changes from sample to sample. -/
def padBus : Bus Nrom where
  video := { cartridge := { board := ⟨⟨#[], #[], #[], false, .horizontal⟩⟩ } }
  controllers :=
    { source := some fun sample =>
        { first := { a := sample % 2 == 1, start := true }, second := { select := true } } }

/-- Events while the strobe line is on: a read that samples, and a write that keeps the line on. -/
def strobed : List Event :=
  [.access (.read 0x4016), .access (.write 0x4016 0x03)]

/-- Events behind the falling line: nine reads of the first controller, two of the second one, and
accesses that do not tell the line anything new. -/
def polled : List Event :=
  List.replicate 4 (.access (.read 0x4016)) ++ [.access (.read 0x4017), .plug none,
    .access (.write 0x4017 0x01), .dot, .access (.read 0x4017), .access (.write 0x4016 0xfe)] ++
    List.replicate 5 (.access (.read 0x4016))

/-- Reads of both ports behind a falling strobe, with controllers that are taken away. -/
theorem pads_protocol_polled :
    let edge := padBus.happenAll (.access (.write 0x4016 0x01) :: strobed)
    let now := edge.happenAll (.access (.write 0x4016 0x02) :: polled)
    (∀ event ∈ strobed, event.strobe? ≠ some false) ∧
    (∀ event ∈ polled, event.strobe? ≠ some true) ∧
    edge.controllers.pressed .first = 0x09 ∧
    (now.read (Socket.address .first)).1.toNat.testBit 0 = true ∧
    (now.read (Socket.address .second)).1.toNat.testBit 0 = true ∧
    (edge.read (Socket.address .first)).1.toNat.testBit 0 = true ∧
    (padBus.read (Socket.address .first)).1.toNat.testBit 7 = false ∧
    (padBus.happenAll (.access (.write 0x4016 0x01) :: strobed)).controllers.samples = 1 := by
  have hStrobed : ∀ event ∈ strobed, event.strobe? ≠ some false := by decide
  have hPolled : ∀ event ∈ polled, event.strobe? ≠ some true := by decide
  obtain ⟨hSerial, hStrobe, hOthers, hCalls⟩ := pads_protocol padBus
  exact ⟨hStrobed, hPolled, rfl,
    hSerial 0x01 0x02 strobed polled .first (by decide) (by decide) hStrobed hPolled,
    hSerial 0x01 0x02 strobed polled .second (by decide) (by decide) hStrobed hPolled,
    hStrobe 0x01 strobed .first (by decide) hStrobed, hOthers .first 7 (by decide) (by decide),
    hCalls _⟩

end Bus

end Nes
