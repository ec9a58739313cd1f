import Nes.Proofs.Cpu.Fetch
import Nes.Proofs.Cpu.Stack

/-! What is put on the stack together comes back together. An interrupt or a call opens a frame on
the stack, and so does a byte that a program saves. The way back closes the frame that was opened
last, and finds in it what was saved, whatever has happened elsewhere in between. -/

namespace Nes

open Cpu

namespace Stack

/-- What a frame on the stack holds. -/
inductive Frame where
  /-- The way back and the flags. -/
  | interrupted
  /-- The way back. -/
  | called
  | accumulator
  | status
  deriving DecidableEq, Repr

/-- The ways to open a frame. -/
inductive Entry where
  | interrupt (vector : UInt16)
  /-- The program goes to the interrupt routine by itself. -/
  | softwareInterrupt
  | call (target : UInt16)
  | accumulator
  | status
  deriving DecidableEq, Repr

def Frame.size : Frame → Nat
  | interrupted => 3
  | called => 2
  | accumulator | status => 1

theorem Frame.size_bounds (frame : Frame) : 1 ≤ frame.size ∧ frame.size ≤ 3 := by
  cases frame <;> decide

namespace Entry

def frame : Entry → Frame
  | interrupt _ | softwareInterrupt => .interrupted
  | call _ => .called
  | accumulator => .accumulator
  | status => .status

/-- The bytes that are put on the stack, given the processor before. The last one comes first. -/
def pushed (entry : Entry) (found : Cpu) : List UInt8 :=
  match entry with
  | interrupt _ => [found.flags.toByte, lowByte found.pc, highByte found.pc]
  | softwareInterrupt =>
    [found.flags.toByte ||| Flags.breakBit, lowByte (found.pc + 1), highByte (found.pc + 1)]
  | call _ => [lowByte (found.pc - 1), highByte (found.pc - 1)]
  | accumulator => [found.a]
  | status => [found.flags.toByte ||| Flags.breakBit]

/-- The flags are among what is saved. Their byte is the last one that is put on the stack. -/
def savesFlags : Entry → Bool
  | interrupt _ | softwareInterrupt | status => true
  | call _ | accumulator => false

/-- What was saved is back, given the processor before the frame was opened and behind its end. The
byte behind the opcode of a software interrupt is skipped. -/
def Recovered (entry : Entry) (found after : Cpu) : Prop :=
  match entry with
  | interrupt _ => after.pc = found.pc ∧ after.flags = found.flags
  | softwareInterrupt => after.pc = found.pc + 1 ∧ after.flags = found.flags
  | call _ => after.pc = found.pc
  | accumulator => after.a = found.a
  | status => after.flags = found.flags

end Entry

/-- Something happens to the processor and its bus. -/
inductive Event where
  | enter (entry : Entry)
  | leave (frame : Frame)
  /-- The processor gets new contents, apart from the stack pointer. -/
  | compute (cpu : Cpu)
  | bus (event : Bus.Event)

/-- A machine, and the frames that are open. The one that was opened last comes first, each with the
processor that it was opened by. -/
structure Ledger (β : Type) where
  machine : Machine β
  opened : List (Entry × Cpu) := []

end Stack

/-- A saved status has bit 5, and it has the mark exactly if the program saves it by itself. -/
theorem Stack.Entry.exists_pushed {entry : Entry} (found : Cpu)
    (hSaves : entry.savesFlags = true) :
    ∃ status rest, entry.pushed found = status :: rest ∧ status &&& 0x20 ≠ 0 ∧
      (status &&& Flags.breakBit ≠ 0 ↔ entry = .softwareInterrupt ∨ entry = .status) := by
  obtain ⟨hPlain, hUnmarked, hMarkedPlain, hMarked⟩ := found.flags.bits_toByte
  cases entry with
  | interrupt vector => exact ⟨_, _, rfl, hPlain, by simp [hUnmarked]⟩
  | softwareInterrupt => exact ⟨_, _, rfl, hMarkedPlain, by simp [hMarked]⟩
  | status => exact ⟨_, _, rfl, hMarkedPlain, by simp [hMarked]⟩
  | call target | accumulator => cases hSaves

namespace Machine

open Stack
open Bus (SameOutsideStack sameOutsideStack_read)

variable {β : Type} [Board β]

/-- Does what the instruction of an opcode does with an operand, if it has a dependable effect. -/
def operate (machine : Machine β) (opcode : UInt8) (operand : Operand := {}) : Machine β :=
  match (decode opcode).effect? with
  | some effect => machine.perform effect operand
  | none => machine

/-- An opcode with a dependable effect does what its effect says. -/
theorem operate_eq (machine : Machine β) {opcode : UInt8} {effect : Effect}
    (hEffect : (decode opcode).effect? = some effect) (operand : Operand) :
    machine.operate opcode operand = machine.perform effect operand := by
  simp only [operate, hEffect]

/-- This is how the processor executes an instruction once it has fetched the operand. -/
theorem stepInstruction_operate (machine : Machine β) :
    let opcode := (machine.read machine.cpu.pc).1
    let fetched := machine.behindOpcode.fetchOperand (decode opcode).mode
    (decode opcode).effect?.isSome = true →
      ∃ cycles, machine.stepInstruction =
        .ok cycles ((fetched.2.operate opcode fetched.1).spend cycles) := by
  intro opcode fetched hSome
  obtain ⟨effect, hEffect⟩ := Option.isSome_iff_exists.mp hSome
  rw [operate_eq _ hEffect]
  exact ⟨_, machine.stepInstruction_eq hEffect⟩

/-- Opens a frame, by an interrupt or by `BRK`, `JSR`, `PHA` or `PHP`. -/
def enter (machine : Machine β) : Entry → Machine β
  | .interrupt vector => machine.interrupt vector false
  | .softwareInterrupt => machine.operate 0x00
  | .call target => machine.operate 0x20 { address := target }
  | .accumulator => machine.operate 0x48
  | .status => machine.operate 0x08

/-- Closes a frame, by `RTI`, `RTS`, `PLA` or `PLP`. -/
def leave (machine : Machine β) : Frame → Machine β
  | .interrupted => machine.operate 0x40
  | .called => machine.operate 0x60
  | .accumulator => machine.operate 0x68
  | .status => machine.operate 0x28

/-- The opcodes have the effects that their names say. -/
theorem enter_eq (machine : Machine β) (entry : Entry) :
    machine.enter entry =
      match entry with
      | .interrupt vector => machine.interrupt vector false
      | .softwareInterrupt => machine.perform .softwareInterrupt {}
      | .call target => machine.perform .call { address := target }
      | .accumulator => machine.push machine.cpu.a
      | .status => machine.push (machine.cpu.flags.toByte ||| Flags.breakBit) := by
  cases entry <;> rfl

/-- What leaving a frame takes from the stack. -/
theorem leave_eq (machine : Machine β) (frame : Frame) :
    machine.leave frame =
      match frame with
      | .interrupted =>
        { machine.pull.2.pullWord.2 with
          cpu.flags := .ofByte machine.pull.1
          cpu.pc := machine.pull.2.pullWord.1 }
      | .called => machine.pullWord.2.goto (machine.pullWord.1 + 1)
      | .accumulator =>
        machine.pull.2.withRegisters (machine.pull.2.cpu.toRegisters.withA machine.pull.1)
      | .status =>
        machine.pull.2.withRegisters
          { machine.pull.2.cpu.toRegisters with flags := .ofByte machine.pull.1 } := by
  cases frame <;> rfl

/-- Entering a frame moves the stack pointer down by its size. -/
theorem s_enter (machine : Machine β) (entry : Entry) :
    (machine.enter entry).cpu.s = machine.cpu.s - .ofNat entry.frame.size := by
  have hTwo : machine.cpu.s - 1 - 1 = machine.cpu.s - 2 := by grind
  have hThree : machine.cpu.s - 1 - 1 - 1 = machine.cpu.s - 3 := by grind
  rw [enter_eq]
  cases entry with
  | interrupt vector | softwareInterrupt => exact hThree
  | call target => exact hTwo
  | accumulator | status => rfl

/-- Leaving a frame moves the stack pointer up by its size. -/
theorem s_leave (machine : Machine β) (frame : Frame) :
    (machine.leave frame).cpu.s = machine.cpu.s + .ofNat frame.size := by
  have hTwo : machine.cpu.s + 1 + 1 = machine.cpu.s + 2 := by grind
  have hThree : machine.cpu.s + 1 + 1 + 1 = machine.cpu.s + 3 := by grind
  rw [leave_eq]
  cases frame with
  | interrupted => exact hThree
  | called => exact hTwo
  | accumulator | status => rfl

/-- Opening a frame puts its bytes before those that were on the stack. -/
theorem stacked_enter (machine : Machine β) (entry : Entry) {count : Nat}
    (hRoom : count + entry.frame.size ≤ 256) :
    (machine.enter entry).stacked (count + entry.frame.size) =
      entry.pushed machine.cpu ++ machine.stacked count := by
  rw [enter_eq]
  cases entry with
  | interrupt vector =>
      rw [Entry.pushed, ← UInt8.or_zero (a := machine.cpu.flags.toByte)]
      exact machine.stacked_interrupt vector false hRoom
  | softwareInterrupt =>
      exact (machine.goto (machine.cpu.pc + 1)).stacked_interrupt irqVector true hRoom
  | call target => exact machine.stacked_pushWord (machine.cpu.pc - 1) hRoom
  | accumulator | status => exact machine.stacked_push _ hRoom

/-- The last byte that a frame has pushed is on top of the stack. -/
theorem top_enter (machine : Machine β) {entry : Entry} {last : UInt8} {rest : List UInt8}
    (hPushed : entry.pushed machine.cpu = last :: rest) : (machine.enter entry).top = last := by
  obtain ⟨hLeast, hMost⟩ := entry.frame.size_bounds
  obtain ⟨size, hSize⟩ := Nat.exists_eq_add_of_le' hLeast
  have hRoom : 0 + entry.frame.size ≤ 256 := by omega
  have hStacked := machine.stacked_enter entry hRoom
  rw [hSize, Nat.zero_add, hPushed] at hStacked
  exact (List.cons_eq_cons.mp hStacked).1

/-- Closing a frame finds what was saved in it, and leaves the bytes behind it. -/
theorem leave_recovers {machine : Machine β} {entry : Entry} {found : Cpu} {count : Nat}
    {rest : List UInt8}
    (hStacked : machine.stacked (count + entry.frame.size) = entry.pushed found ++ rest) :
    entry.Recovered found (machine.leave entry.frame).cpu ∧
      (machine.leave entry.frame).stacked count = rest := by
  rw [leave_eq]
  cases entry with
  | interrupt vector =>
      obtain ⟨hFlags, hBehind⟩ := pull_eq hStacked
      obtain ⟨hWord, hRest⟩ := pullWord_eq hBehind
      exact ⟨⟨hWord, (congrArg Flags.ofByte hFlags).trans (Flags.ofByte_toByte _)⟩, hRest⟩
  | softwareInterrupt =>
      obtain ⟨hFlags, hBehind⟩ := pull_eq hStacked
      obtain ⟨hWord, hRest⟩ := pullWord_eq hBehind
      exact ⟨⟨hWord, (congrArg Flags.ofByte hFlags).trans (Flags.ofByte_toByte_or_breakBit _)⟩,
        hRest⟩
  | call target =>
      obtain ⟨hWord, hRest⟩ := pullWord_eq hStacked
      exact ⟨(congrArg (· + 1) hWord).trans (UInt16.sub_add_cancel _ _), hRest⟩
  | accumulator =>
      obtain ⟨hByte, hRest⟩ := pull_eq hStacked
      exact ⟨hByte, hRest⟩
  | status =>
      obtain ⟨hByte, hRest⟩ := pull_eq hStacked
      exact ⟨(congrArg Flags.ofByte hByte).trans (Flags.ofByte_toByte_or_breakBit _), hRest⟩

theorem sameOutsideStack_push (machine : Machine β) (value : UInt8) :
    SameOutsideStack machine.bus (machine.push value).bus :=
  Bus.sameOutsideStack_push _ _ _

theorem sameOutsideStack_pushWord (machine : Machine β) (word : UInt16) :
    SameOutsideStack machine.bus (machine.pushWord word).bus :=
  (machine.sameOutsideStack_push _).trans (sameOutsideStack_push _ _)

theorem sameOutsideStack_interrupt (machine : Machine β) (vector : UInt16) (software : Bool) :
    SameOutsideStack machine.bus (machine.interrupt vector software).bus :=
  (machine.sameOutsideStack_pushWord _).trans <|
    (sameOutsideStack_push _ _).trans <|
      (sameOutsideStack_read _ vector).trans (sameOutsideStack_read _ (vector + 1))

/-- Entering a frame changes the stack and no other memory. -/
theorem sameOutsideStack_enter (machine : Machine β) (entry : Entry) :
    SameOutsideStack machine.bus (machine.enter entry).bus := by
  rw [enter_eq]
  cases entry with
  | interrupt vector => exact machine.sameOutsideStack_interrupt vector false
  | softwareInterrupt =>
      exact (machine.goto (machine.cpu.pc + 1)).sameOutsideStack_interrupt irqVector true
  | call target => exact machine.sameOutsideStack_pushWord _
  | accumulator | status => exact machine.sameOutsideStack_push _

theorem sameOutsideStack_leave (machine : Machine β) (frame : Frame) :
    SameOutsideStack machine.bus (machine.leave frame).bus := by
  rw [leave_eq]
  cases frame with
  | interrupted =>
      exact ((sameOutsideStack_read _ _).trans (sameOutsideStack_read _ _)).trans
        (sameOutsideStack_read _ _)
  | called => exact (sameOutsideStack_read _ _).trans (sameOutsideStack_read _ _)
  | accumulator | status => exact sameOutsideStack_read _ _

end Machine

namespace Stack

open Machine
open Bus (SameOutsideStack)

/-- The number of bytes in frames. -/
def sizeOf : List Frame → Nat
  | [] => 0
  | frame :: frames => sizeOf frames + frame.size

/-- The events fit frames that are open, the one that was opened last first. There is room in the
page for each frame, it is always the last one that is closed, and nothing else writes to the
stack. -/
def Nested : List Frame → List Event → Bool
  | _, [] => true
  | frames, .enter entry :: events =>
    decide (sizeOf frames + entry.frame.size ≤ 256) && Nested (entry.frame :: frames) events
  | [], .leave _ :: _ => false
  | last :: frames, .leave frame :: events => decide (last = frame) && Nested frames events
  | frames, .compute _ :: events => Nested frames events
  | frames, .bus event :: events => event.sparesStack && Nested frames events

/-- The stack pointer is where the processors of open frames have left it, one after the other. -/
def Linked : UInt8 → List (Entry × Cpu) → Prop
  | _, [] => True
  | s, (entry, found) :: opened => found.s = s + .ofNat entry.frame.size ∧ Linked found.s opened

namespace Ledger

def frames {β : Type} (ledger : Ledger β) : List Frame :=
  ledger.opened.map fun opened => opened.1.frame

def bytes {β : Type} (ledger : Ledger β) : List UInt8 :=
  ledger.opened.flatMap fun opened => opened.1.pushed opened.2

variable {β : Type} [Board β]

def follow (ledger : Ledger β) : Event → Ledger β
  | .enter entry =>
    ⟨ledger.machine.enter entry, (entry, ledger.machine.cpu) :: ledger.opened⟩
  | .leave frame => ⟨ledger.machine.leave frame, ledger.opened.tail⟩
  | .compute cpu => { ledger with machine.cpu := { cpu with s := ledger.machine.cpu.s } }
  | .bus event => { ledger with machine.bus := ledger.machine.bus.happen event }

def followAll : Ledger β → List Event → Ledger β
  | ledger, [] => ledger
  | ledger, event :: events => (ledger.follow event).followAll events

/-- The bytes of the open frames are on the stack. -/
structure Intact (ledger : Ledger β) : Prop where
  room : sizeOf ledger.frames ≤ 256
  stacked : ledger.machine.stacked (sizeOf ledger.frames) = ledger.bytes
  linked : Linked ledger.machine.cpu.s ledger.opened

omit [Board β] in
/-- A ledger without frames is intact. -/
theorem intact_start (machine : Machine β) : Intact ⟨machine, []⟩ where
  room := Nat.zero_le 256
  stacked := rfl
  linked := trivial

/-- Entering a frame keeps a ledger intact, as long as there is room for it. -/
theorem Intact.enter {ledger : Ledger β} (hIntact : ledger.Intact) {entry : Entry}
    (hRoom : sizeOf ledger.frames + entry.frame.size ≤ 256) :
    (ledger.follow (.enter entry)).Intact := by
  have hFrames : (ledger.follow (.enter entry)).frames = entry.frame :: ledger.frames := rfl
  refine ⟨?_, ?_, ?_, hIntact.linked⟩
  · rw [hFrames, sizeOf]
    exact hRoom
  · rw [hFrames, sizeOf, follow, stacked_enter _ _ hRoom, hIntact.stacked]
    rfl
  · rw [follow, s_enter]
    exact (UInt8.sub_add_cancel _ _).symm

/-- Closing the frame that was opened last recovers what is saved in it. -/
theorem Intact.leave {ledger : Ledger β} (hIntact : ledger.Intact) {entry : Entry} {found : Cpu}
    {opened : List (Entry × Cpu)} (hOpened : ledger.opened = (entry, found) :: opened) :
    let next := ledger.follow (.leave entry.frame)
    next.machine.cpu.s = found.s ∧ entry.Recovered found next.machine.cpu ∧ next.Intact := by
  intro next
  obtain ⟨machine, all⟩ := ledger
  obtain rfl : all = (entry, found) :: opened := hOpened
  obtain ⟨hRoom, hStacked, hLinked, hRest⟩ := hIntact
  have hFrames : frames ⟨machine, (entry, found) :: opened⟩ = entry.frame :: next.frames := rfl
  rw [hFrames, sizeOf] at hRoom hStacked
  obtain ⟨hRecovered, hBehind⟩ := leave_recovers hStacked
  have hPointer : next.machine.cpu.s = found.s := (s_leave machine entry.frame).trans hLinked.symm
  refine ⟨hPointer, hRecovered, Nat.le_of_add_right_le hRoom, hBehind, ?_⟩
  rw [hPointer]
  exact hRest

/-- Every event that fits keeps the bytes of the frames that stay open, and what comes then fits
these. -/
theorem Intact.follow {ledger : Ledger β} {event : Event} {events : List Event}
    (hIntact : ledger.Intact) (hNested : Nested ledger.frames (event :: events) = true) :
    (ledger.follow event).Intact ∧ Nested (ledger.follow event).frames events = true := by
  cases event with
  | enter entry =>
      rw [Nested, Bool.and_eq_true, decide_eq_true_eq] at hNested
      exact ⟨hIntact.enter hNested.1, hNested.2⟩
  | leave frame =>
      obtain ⟨machine, opened⟩ := ledger
      cases opened with
      | nil => cases hNested
      | cons last opened =>
          rw [frames, List.map_cons, Nested, Bool.and_eq_true, decide_eq_true_eq] at hNested
          obtain ⟨rfl, hRest⟩ := hNested
          exact ⟨(hIntact.leave rfl).2.2, hRest⟩
  | compute cpu =>
      rw [Nested] at hNested
      exact ⟨⟨hIntact.room, hIntact.stacked, hIntact.linked⟩, hNested⟩
  | bus event =>
      rw [Nested, Bool.and_eq_true] at hNested
      have hKept : (ledger.follow (.bus event)).machine.stacked (sizeOf ledger.frames) =
          ledger.machine.stacked (sizeOf ledger.frames) := Bus.stacked_happen hNested.1 _ _
      exact ⟨⟨hIntact.room, hKept.trans hIntact.stacked, hIntact.linked⟩, hNested.2⟩

/-- Events that nest keep a ledger intact. -/
theorem Intact.followAll {ledger : Ledger β} {events : List Event} (hIntact : ledger.Intact)
    (hNested : Nested ledger.frames events = true) : (ledger.followAll events).Intact := by
  induction events generalizing ledger with
  | nil => exact hIntact
  | cons event events ih =>
      obtain ⟨hNext, hRest⟩ := hIntact.follow hNested
      exact ih hNext hRest

end Ledger

variable {β : Type} [Board β]

/-- Frames on the stack nest. Whatever a program does while frames are open, as long as they fit the
page of the stack and nothing else is written there, the way back out of the last one recovers the
stack pointer and what was saved. The saved status has bit 5, and it has the mark if the program has
saved it by itself. Neither way changes memory outside the stack. -/
theorem frames_nest (start : Machine β) {events : List Event} (hNested : Nested [] events = true) :
    let ledger := Ledger.followAll ⟨start, []⟩ events
    let machine := ledger.machine
    (∀ entry found opened, ledger.opened = (entry, found) :: opened →
      let after := (machine.leave entry.frame).cpu
      after.s = found.s ∧ entry.Recovered found after) ∧
    (∀ entry, entry.savesFlags = true →
      let status := (machine.enter entry).top
      status &&& 0x20 ≠ 0 ∧
        (status &&& 0x10 ≠ 0 ↔ entry = .softwareInterrupt ∨ entry = .status)) ∧
    (∀ entry, SameOutsideStack machine.bus (machine.enter entry).bus) ∧
    ∀ frame, SameOutsideStack machine.bus (machine.leave frame).bus := by
  intro ledger machine
  have hIntact : ledger.Intact := (Ledger.intact_start start).followAll hNested
  refine ⟨?_, ?_, machine.sameOutsideStack_enter, machine.sameOutsideStack_leave⟩
  · intro entry found opened hOpened
    obtain ⟨hPointer, hRecovered, -⟩ := hIntact.leave hOpened
    exact ⟨hPointer, hRecovered⟩
  · intro entry hSaves status
    obtain ⟨saved, rest, hPushed, hBits⟩ := entry.exists_pushed machine.cpu hSaves
    rw [show status = saved from machine.top_enter hPushed]
    exact hBits

/-- A program that is at the bottom of the stack page. -/
def wrapping : Machine Nrom where
  cpu := { pc := 0x8003, a := 0x12, flags := { carry := true } }
  bus :=
    let cartridge : Cartridge Nrom := { board := ⟨⟨#[], #[], #[], false, .horizontal⟩⟩ }
    { video := { cartridge } }

/-- Calls a routine that is interrupted by one that saves its accumulator and writes to memory. All
of this has ended, except for the routine. -/
def interruptedRoutine : List Event :=
  [.enter (.call 0x9000), .compute { pc := 0x9001 }, .enter (.interrupt nmiVector),
    .enter .accumulator, .compute { a := 0x34, pc := 0xa000 },
    .bus (.access (.write 0x0010 0x56)), .leave .accumulator, .leave .interrupted]

/-- The bytes of the call lie on both sides of the end of the page. -/
theorem frames_nest_wrapping :
    Nested [] interruptedRoutine = true ∧
      let ledger := Ledger.followAll ⟨wrapping, []⟩ interruptedRoutine
      ledger.machine.cpu.s = 0xfe ∧
        (ledger.machine.leave .called).cpu.s = 0x00 ∧
        (ledger.machine.leave .called).cpu.pc = 0x8003 := by
  have hNested : Nested [] interruptedRoutine = true := by decide
  have hReturn := (frames_nest wrapping hNested).1 (.call 0x9000) wrapping.cpu [] rfl
  exact ⟨hNested, rfl, hReturn.1, hReturn.2⟩

end Stack

end Nes
