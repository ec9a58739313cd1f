import Nes.Proofs.Bus.PictureMemory
import Nes.Proofs.Cpu.Traffic

/-! The stack as a list of bytes. A byte that is pushed comes before the bytes above the stack
pointer, and a pull takes the first of them away. The pointer may pass the end of its page at any
byte, as long as the bytes do not go round the page once. -/

namespace Nes

namespace Cpu

/-- The two bytes of a word give it back. -/
@[simp] theorem wordOf_bytes (word : UInt16) : wordOf (lowByte word) (highByte word) = word := by
  have hLt := word.toNat_lt
  rw [wordOf, lowByte, highByte, UInt8.toNat_ofNat', UInt8.toNat_ofNat', ← UInt16.toNat_inj,
    UInt16.toNat_ofNat']
  omega

/-- The byte of the flags has bit 5 and lacks the mark of a software interrupt. -/
theorem Flags.bits_toByte (flags : Flags) :
    flags.toByte &&& 0x20 ≠ 0 ∧ flags.toByte &&& breakBit = 0 ∧
      (flags.toByte ||| breakBit) &&& 0x20 ≠ 0 ∧ (flags.toByte ||| breakBit) &&& breakBit ≠ 0 := by
  obtain ⟨carry, zero, interruptDisable, decimal, overflow, negative⟩ := flags
  revert carry zero interruptDisable decimal overflow negative
  decide

end Cpu

namespace Bus

open Cpu

/-- The addresses of the stack, wherever work memory repeats. -/
abbrev OnStack (address : UInt16) : Prop :=
  address < 0x2000 ∧ 0x100 ≤ address.toNat % 0x800 ∧ address.toNat % 0x800 < 0x200

/-- An event that is not a write to the stack. -/
def Event.sparesStack : Event → Bool
  | .access (.write address _) => !decide (OnStack address)
  | _ => true

section Cells

variable {β : Type} {bus other : Bus β}

/-- The byte in the cell of the stack that a stack pointer names. -/
def stackByte (bus : Bus β) (s : UInt8) : UInt8 :=
  bus.ram[ramIndex (stackAddress s)]

/-- The bytes above a stack pointer. The one that a pull gives comes first. -/
def stacked (bus : Bus β) : UInt8 → (count : Nat) → List UInt8
  | _, 0 => []
  | s, count + 1 => bus.stackByte (s + 1) :: bus.stacked (s + 1) count

/-- Two buses have the same bytes in all memory except for the stack. -/
structure SameOutsideStack (before after : Bus β) : Prop where
  ram : ∀ index : Fin 2048, ¬(0x100 ≤ index.val ∧ index.val < 0x200) →
    after.ram[index] = before.ram[index]
  video : after.video = before.video
  palette : after.ppu.palette = before.ppu.palette
  oam : after.ppu.oam = before.ppu.oam

theorem SameOutsideStack.trans {between : Bus β} (hFirst : SameOutsideStack bus between)
    (hSecond : SameOutsideStack between other) : SameOutsideStack bus other where
  ram := fun index hIndex => (hSecond.ram index hIndex).trans (hFirst.ram index hIndex)
  video := hSecond.video.trans hFirst.video
  palette := hSecond.palette.trans hFirst.palette
  oam := hSecond.oam.trans hFirst.oam

theorem stackByte_of_ram (hRam : other.ram = bus.ram) (s : UInt8) :
    other.stackByte s = bus.stackByte s := by
  rw [stackByte, stackByte, hRam]

/-- The bytes above a stack pointer depend on the cells above it. -/
theorem stacked_congr {s : UInt8} {count : Nat}
    (hSame : ∀ place < count, other.stackByte (s + 1 + .ofNat place) =
      bus.stackByte (s + 1 + .ofNat place)) :
    other.stacked s count = bus.stacked s count := by
  induction count generalizing s with
  | zero => rfl
  | succ count ih =>
      have hTop : other.stackByte (s + 1) = bus.stackByte (s + 1) := by
        simpa using hSame 0 (Nat.succ_pos count)
      have hRest : other.stacked (s + 1) count = bus.stacked (s + 1) count := by
        refine ih fun place hPlace => ?_
        have hNext : s + 1 + 1 + .ofNat place = s + 1 + .ofNat (place + 1) := by
          rw [UInt8.ofNat_add, UInt8.add_assoc (s + 1), UInt8.add_comm (.ofNat place)]
          rfl
        rw [hNext]
        exact hSame (place + 1) (Nat.succ_lt_succ hPlace)
      rw [stacked, stacked, hTop, hRest]

theorem stacked_of_ram (hRam : other.ram = bus.ram) (s : UInt8) (count : Nat) :
    other.stacked s count = bus.stacked s count :=
  stacked_congr fun _ _ => stackByte_of_ram hRam _

/-- The stack is the second page of work memory. -/
theorem val_ramIndex_stackAddress (s : UInt8) :
    (ramIndex (stackAddress s)).val = 0x100 + s.toNat := by
  have hLt := s.toNat_lt
  have hPlace : (ramIndex (stackAddress s)).val = (stackAddress s).toNat % 2048 := rfl
  rw [hPlace, Machine.toNat_stackAddress, Nat.mod_eq_of_lt (by omega)]

theorem stackAddress_lt (s : UInt8) : stackAddress s < 0x2000 := by
  have hLt := s.toNat_lt
  rw [UInt16.lt_iff_toNat_lt, Machine.toNat_stackAddress]
  exact Nat.lt_trans (Nat.add_lt_add_left hLt _) (by decide)

end Cells

variable {β : Type} [Board β] {bus : Bus β}

/-- Reading the stack gives the byte that it holds. -/
theorem fst_read_stack (bus : Bus β) (s : UInt8) :
    (bus.read (stackAddress s)).1 = bus.stackByte s := by
  rw [Bus.read, drive, if_pos (stackAddress_lt s)]
  rfl

/-- A write changes a byte of the stack only at a mirror of its own address. -/
theorem stackByte_write (bus : Bus β) (address : UInt16) (value s : UInt8) :
    (bus.write address value).stackByte s =
      if address < 0x2000 ∧ address.toNat % 0x800 = 0x100 + s.toNat then value
      else bus.stackByte s := by
  have hIndex := val_ramIndex_stackAddress s
  rw [stackByte, stackByte, ram_write]
  by_cases hRam : address < 0x2000
  · rw [if_pos hRam]
    simp only [Fin.getElem_fin, Vector.getElem_set, hRam, true_and, hIndex]
    rfl
  · rw [if_neg hRam, if_neg fun hPlace => hRam hPlace.1]

/-- Pushing a byte leaves the other bytes of the stack alone. -/
theorem stackByte_push (bus : Bus β) (top value s : UInt8) :
    (bus.write (stackAddress top) value).stackByte s =
      if s = top then value else bus.stackByte s := by
  have hPlace : stackAddress top < 0x2000 ∧
      (stackAddress top).toNat % 0x800 = 0x100 + s.toNat ↔ s = top := by
    have hTop := top.toNat_lt
    rw [Machine.toNat_stackAddress, Nat.mod_eq_of_lt (by omega), ← UInt8.toNat_inj]
    exact ⟨fun h => by omega, fun h => ⟨stackAddress_lt top, by omega⟩⟩
  rw [stackByte_write]
  simp only [hPlace]

/-- An event that spares the stack leaves its bytes alone. -/
theorem stackByte_happen {event : Event} (hSpares : event.sparesStack = true) (s : UInt8) :
    (bus.happen event).stackByte s = bus.stackByte s := by
  cases event with
  | access access =>
      cases access with
      | read address => exact stackByte_of_ram (bus.ram_drive address) s
      | write address value =>
          have hLt := s.toNat_lt
          rw [Event.sparesStack, Bool.not_eq_true', decide_eq_false_iff_not] at hSpares
          rw [happen, Bus.access, stackByte_write, if_neg]
          rintro ⟨hRam, hPlace⟩
          exact hSpares ⟨hRam, by omega, by omega⟩
  | plug source => rfl
  | dot => rfl

theorem stacked_happen {event : Event} (hSpares : event.sparesStack = true) (s : UInt8)
    (count : Nat) : (bus.happen event).stacked s count = bus.stacked s count :=
  stacked_congr fun _ _ => stackByte_happen hSpares _

/-- The cell that a stack pointer names is not among those above it before the page is full. -/
theorem stacked_push (bus : Bus β) (s value : UInt8) {count : Nat} (hRoom : count < 256) :
    (bus.write (stackAddress s) value).stacked (s - 1) (count + 1) =
      value :: bus.stacked s count := by
  have hBack : s - 1 + 1 = s := UInt8.sub_add_cancel s 1
  rw [stacked, hBack, stackByte_push, if_pos rfl]
  refine congrArg (List.cons value) (stacked_congr fun place hPlace => ?_)
  -- from the cell above, the pushed one comes round again only after 255 more places
  rw [stackByte_push, if_neg]
  intro hSame
  have hNumber := congrArg UInt8.toNat hSame
  rw [UInt8.toNat_add, UInt8.toNat_add, UInt8.toNat_ofNat'] at hNumber
  have hOne : (1 : UInt8).toNat = 1 := rfl
  have hLt := s.toNat_lt
  omega

/-- A read changes no memory. -/
theorem sameOutsideStack_read (bus : Bus β) (address : UInt16) :
    SameOutsideStack bus (bus.read address).2 where
  ram := fun index _ => congrArg (fun ram => ram[index]) (bus.ram_drive address)
  video := bus.video_drive address
  palette := bus.palette_read address
  oam := bus.oam_read address

/-- A push changes one cell of the stack. -/
theorem sameOutsideStack_push (bus : Bus β) (s value : UInt8) :
    SameOutsideStack bus (bus.write (stackAddress s) value) where
  ram := fun index hIndex => by
    have hLt := s.toNat_lt
    have hPlace := val_ramIndex_stackAddress s
    have hElsewhere : (ramIndex (stackAddress s)).val ≠ index.val := by omega
    simp only [ram_write, if_pos (stackAddress_lt s), Fin.getElem_fin]
    exact Vector.getElem_set_ne _ _ hElsewhere
  video := by rw [write, if_pos (stackAddress_lt s)]
  palette := by rw [write, if_pos (stackAddress_lt s)]
  oam := by rw [write, if_pos (stackAddress_lt s)]

end Bus

namespace Machine

open Cpu Bus

variable {β : Type}

/-- The byte that a pull would give. -/
def top (machine : Machine β) : UInt8 :=
  machine.bus.stackByte (machine.cpu.s + 1)

def stacked (machine : Machine β) (count : Nat) : List UInt8 :=
  machine.bus.stacked machine.cpu.s count

/-- The top of the stack depends on the pointer and on work memory. -/
theorem top_congr {machine other : Machine β} (hPointer : other.cpu.s = machine.cpu.s)
    (hRam : other.bus.ram = machine.bus.ram) : other.top = machine.top := by
  rw [top, top, hPointer, Bus.stackByte_of_ram hRam]

variable [Board β]

theorem fst_pull (machine : Machine β) : machine.pull.1 = machine.top :=
  machine.bus.fst_read_stack _

/-- The bytes on the stack are its top and those below it. -/
theorem stacked_succ (machine : Machine β) (count : Nat) :
    machine.stacked (count + 1) = machine.top :: machine.pull.2.stacked count := by
  have hRest : machine.pull.2.stacked count = machine.bus.stacked (machine.cpu.s + 1) count :=
    Bus.stacked_of_ram (machine.bus.ram_drive _) _ _
  rw [hRest]
  rfl

/-- A byte that was pushed comes before those that were there. -/
theorem stacked_push (machine : Machine β) (value : UInt8) {count : Nat} (hRoom : count < 256) :
    (machine.push value).stacked (count + 1) = value :: machine.stacked count :=
  machine.bus.stacked_push machine.cpu.s value hRoom

/-- A word is pushed with its upper byte first. -/
theorem stacked_pushWord (machine : Machine β) (word : UInt16) {count : Nat}
    (hRoom : count + 1 < 256) :
    (machine.pushWord word).stacked (count + 2) =
      lowByte word :: highByte word :: machine.stacked count := by
  rw [pushWord, stacked_push _ _ hRoom, stacked_push _ _ (Nat.lt_of_succ_lt hRoom)]

/-- An interrupt pushes the program counter and the flags. -/
theorem stacked_interrupt (machine : Machine β) (vector : UInt16) (software : Bool) {count : Nat}
    (hRoom : count + 2 < 256) :
    (machine.interrupt vector software).stacked (count + 3) =
      (machine.cpu.flags.toByte ||| if software then Flags.breakBit else 0) ::
        lowByte machine.cpu.pc :: highByte machine.cpu.pc :: machine.stacked count := by
  let saved := (machine.pushWord machine.cpu.pc).push
    (machine.cpu.flags.toByte ||| if software then Flags.breakBit else 0)
  have hRam : (machine.interrupt vector software).bus.ram = saved.bus.ram :=
    ((saved.bus.read vector).2.ram_drive (vector + 1)).trans (saved.bus.ram_drive vector)
  calc (machine.interrupt vector software).stacked (count + 3)
      = saved.stacked (count + 3) := Bus.stacked_of_ram hRam _ _
    _ = _ := by rw [stacked_push _ _ hRoom, stacked_pushWord _ _ (Nat.lt_of_succ_lt hRoom)]

/-- An interrupt leaves the flags on top of the stack. -/
theorem top_interrupt (machine : Machine β) (vector : UInt16) (software : Bool) :
    (machine.interrupt vector software).top =
      machine.cpu.flags.toByte ||| if software then Flags.breakBit else 0 := by
  have hRoom : 0 + 2 < 256 := by decide
  exact (List.cons_eq_cons.mp (machine.stacked_interrupt vector software hRoom)).1

/-- A pull gives the first byte of the stack and leaves the rest. -/
theorem pull_eq {machine : Machine β} {count : Nat} {value : UInt8} {rest : List UInt8}
    (hStacked : machine.stacked (count + 1) = value :: rest) :
    machine.pull.1 = value ∧ machine.pull.2.stacked count = rest := by
  rw [stacked_succ, ← fst_pull] at hStacked
  exact List.cons_eq_cons.mp hStacked

/-- A word is pulled as it was pushed. -/
theorem pullWord_eq {machine : Machine β} {count : Nat} {word : UInt16} {rest : List UInt8}
    (hStacked : machine.stacked (count + 2) = lowByte word :: highByte word :: rest) :
    machine.pullWord.1 = word ∧ machine.pullWord.2.stacked count = rest := by
  obtain ⟨hLow, hBehind⟩ := pull_eq hStacked
  obtain ⟨hHigh, hRest⟩ := pull_eq hBehind
  refine ⟨?_, hRest⟩
  have hWord : machine.pullWord.1 = wordOf machine.pull.1 machine.pull.2.pull.1 := rfl
  rw [hWord, hLow, hHigh, wordOf_bytes]

end Machine

end Nes
