/-! Two controllers on the processor bus. Each holds its buttons in a shift register that a program
reads bit by bit. -/

namespace Nes

/-- Which buttons of a controller are held down. -/
structure Buttons where
  a : Bool := false
  b : Bool := false
  select : Bool := false
  start : Bool := false
  up : Bool := false
  down : Bool := false
  left : Bool := false
  right : Bool := false
  deriving DecidableEq, Repr

namespace Buttons

/-- The buttons as a byte, in the order in which they are reported from the lowest bit on. -/
def toByte (buttons : Buttons) : UInt8 :=
  (if buttons.a then 0x01 else 0) ||| (if buttons.b then 0x02 else 0) |||
    (if buttons.select then 0x04 else 0) ||| (if buttons.start then 0x08 else 0) |||
    (if buttons.up then 0x10 else 0) ||| (if buttons.down then 0x20 else 0) |||
    (if buttons.left then 0x40 else 0) ||| (if buttons.right then 0x80 else 0)

def ofByte (byte : UInt8) : Buttons where
  a := byte &&& 0x01 != 0
  b := byte &&& 0x02 != 0
  select := byte &&& 0x04 != 0
  start := byte &&& 0x08 != 0
  up := byte &&& 0x10 != 0
  down := byte &&& 0x20 != 0
  left := byte &&& 0x40 != 0
  right := byte &&& 0x80 != 0

/-- A byte holds all that is known of the buttons. -/
@[simp] theorem ofByte_toByte (buttons : Buttons) : ofByte buttons.toByte = buttons := by
  obtain ⟨a, b, select, start, up, down, left, right⟩ := buttons
  revert a b select start up down left right
  decide

end Buttons

/-- The buttons of both controllers at one moment. -/
structure Pads where
  first : Buttons := {}
  second : Buttons := {}
  deriving DecidableEq, Repr

/-- The two places to plug in a controller. -/
inductive Socket where
  | first
  | second
  deriving DecidableEq, Repr

/-- The socket that is read at an address: even addresses reach the first one. -/
def Socket.ofAddress (address : UInt16) : Socket :=
  if address % 2 = 0 then .first else .second

/-- The shift registers of both sockets and the strobe line that loads them. -/
structure Controllers where
  /-- What each sample of the buttons finds, by the number of samples before it. Without a source
  nothing is plugged in. -/
  source : Option (Nat → Pads) := none
  /-- While the strobe is on, the registers follow the buttons. -/
  strobe : Bool := false
  first : UInt8 := 0
  second : UInt8 := 0
  /-- How often the buttons have been sampled. -/
  samples : Nat := 0

namespace Controllers

/-- Loads the shift registers with the buttons that are held down now. -/
def sample (controllers : Controllers) : Controllers :=
  match controllers.source with
  | none => { controllers with first := 0, second := 0 }
  | some source =>
    let pads := source controllers.samples
    { controllers with
      first := pads.first.toByte
      second := pads.second.toByte
      samples := controllers.samples + 1 }

/-- A shift register after a read. The bits that move in are ones. -/
def shifted (register : UInt8) : UInt8 :=
  (register >>> 1) ||| 0x80

/-- Reads the next button of a controller as the lowest bit of a byte. While the strobe is on this
is always the first button, sampled anew. -/
def read (controllers : Controllers) (socket : Socket) : UInt8 × Controllers :=
  let loaded := if controllers.strobe then controllers.sample else controllers
  match socket with
  | .first => (loaded.first &&& 1, { loaded with first := shifted loaded.first })
  | .second => (loaded.second &&& 1, { loaded with second := shifted loaded.second })

/-- The lowest bit of a written byte drives the strobe. The buttons are sampled when it falls. -/
def write (controllers : Controllers) (value : UInt8) : Controllers :=
  let strobe := value &&& 0x01 != 0
  let loaded :=
    if controllers.strobe && !strobe then controllers.sample else controllers
  { loaded with strobe }

end Controllers

end Nes
