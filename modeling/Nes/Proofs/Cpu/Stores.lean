import Nes.Proofs.Cpu.Registers
import Nes.Proofs.Cpu.StackFrames

/-! What a step of the processor stores. An instruction that stores or modifies its operand writes
one byte, and one that saves something writes to the stack. No other instruction writes, and a reset
does not either. -/

namespace Nes

open Cpu

namespace Stack

open Bus (Access Apart SameCell)

/-- The writes that put bytes on the stack one after the other. -/
def stores (s : UInt8) : List UInt8 → List Access
  | [] => []
  | value :: values => .write (stackAddress s) value :: stores (s - 1) values

/-- A number of pushes writes below the stack pointer only. -/
theorem exists_of_mem_stores {s : UInt8} {values : List UInt8} {access : Access}
    (hAccess : access ∈ stores s values) :
    ∃ place value, place < values.length ∧
      access = .write (stackAddress (s - .ofNat place)) value := by
  induction values generalizing s with
  | nil => cases hAccess
  | cons value values ih =>
      obtain rfl | hLater := List.mem_cons.mp hAccess
      · exact ⟨0, value, Nat.succ_pos _, congrArg (Access.write · value)
          (congrArg stackAddress (UInt8.sub_zero s).symm)⟩
      · obtain ⟨place, other, hPlace, rfl⟩ := ih hLater
        have hBelow : s - 1 - .ofNat place = s - .ofNat (place + 1) := by
          have hNext : UInt8.ofNat (place + 1) = .ofNat place + 1 := UInt8.ofNat_add _ _
          rw [hNext]
          grind
        exact ⟨place + 1, other, Nat.succ_lt_succ hPlace, by rw [hBelow]⟩

/-- An address that shares its cell with the stack leads to the second page of work memory. -/
theorem toNat_of_sameCell_stackAddress {s : UInt8} {found : UInt16}
    (hCell : SameCell (stackAddress s) found) : found.toNat % 0x800 = 0x100 + s.toNat := by
  have hLt := s.toNat_lt
  have hStack := Machine.toNat_stackAddress s
  obtain ⟨-, -, hSame⟩ | ⟨rfl, -, -⟩ := hCell
  · omega
  · omega

/-- The stack has a cell for each byte, as long as they do not go round the page. -/
theorem apart_stores {values : List UInt8} (s : UInt8) (hFits : values.length ≤ 256) :
    (stores s values).Pairwise Apart := by
  induction values generalizing s with
  | nil => exact .nil
  | cons value values ih =>
      rw [List.length_cons] at hFits
      refine .cons (fun access hAccess => ?_) (ih (s - 1) (Nat.le_of_succ_le hFits))
      obtain ⟨place, other, hPlace, rfl⟩ := exists_of_mem_stores hAccess
      intro found hHere hThere
      have hFirst := toNat_of_sameCell_stackAddress hHere
      have hSecond := toNat_of_sameCell_stackAddress hThere
      have hLt := s.toNat_lt
      rw [UInt8.toNat_sub, UInt8.toNat_sub, UInt8.toNat_ofNat'] at hSecond
      have hOne : (1 : UInt8).toNat = 1 := rfl
      omega

namespace Entry

/-- The writes that open a frame, given the processor before. -/
def stores (entry : Entry) (found : Cpu) : List Access :=
  Stack.stores found.s (entry.pushed found).reverse

/-- An entry pushes its bytes to cells that are apart. -/
theorem apart_stores (entry : Entry) (found : Cpu) : (entry.stores found).Pairwise Apart := by
  refine Stack.apart_stores _ ?_
  rw [List.length_reverse]
  cases entry <;> simp [pushed]

end Entry

end Stack

namespace Cpu

open Bus (Access InWorkMemory lastStored)

/-- The byte that an operation stores at the address of its operand, given the byte that it finds
there. -/
def Mnemonic.stored? (mnemonic : Mnemonic) (registers : Registers) (found : UInt8) :
    Option UInt8 :=
  match mnemonic with
  | sta => some registers.a
  | stx => some registers.x
  | sty => some registers.y
  | sax => some (registers.a &&& registers.x)
  | inc | isb => some (found + 1)
  | dec | dcp => some (found - 1)
  | asl | slo => some (found <<< 1)
  | lsr | sre => some (found >>> 1)
  | rol | rla => some (found <<< 1 ||| if registers.flags.carry then 0x01 else 0)
  | ror | rra => some (found >>> 1 ||| if registers.flags.carry then 0x80 else 0)
  | _ => none

/-- How an operation that saves something opens a frame on the stack. -/
def Mnemonic.opens? (mnemonic : Mnemonic) (target : UInt16) : Option Stack.Entry :=
  match mnemonic with
  | brk => some .softwareInterrupt
  | jsr => some (.call target)
  | pha => some .accumulator
  | php => some .status
  | _ => none

/-- The writes of an operation, given the address of its operand and the byte that it finds there.
-/
def Mnemonic.stores (mnemonic : Mnemonic) (cpu : Cpu) (address : UInt16) (found : UInt8) :
    List Access :=
  match mnemonic.opens? address with
  | some entry => entry.stores cpu
  | none => ((mnemonic.stored? cpu.toRegisters found).map (Access.write address)).toList

/-- The writes of an instruction. A shift of the accumulator does not write. -/
def Instruction.stores (instruction : Instruction) (cpu : Cpu) (address : UInt16) (found : UInt8) :
    List Access :=
  if instruction.mode = .accumulator then [] else instruction.mnemonic.stores cpu address found

section Bytes

end Bytes

end Cpu

namespace Machine

open Stack
open Bus (Access Apart InWorkMemory SameCell lastStored)

section Traffic

variable {β : Type} [Board β]

/-- The writes of the instruction at the program counter, as looking at memory shows them. -/
def instructionStores (machine : Machine β) : List Access :=
  let instruction := decode (machine.read machine.cpu.pc).1
  let fetched := machine.behindOpcode.fetchOperand instruction.mode
  instruction.stores fetched.2.cpu fetched.1.address (machine.bus.peek fetched.1.address)

/-- The writes of a step. A reset has none. -/
def stores (machine : Machine β) : List Access :=
  if machine.cpu.resetPending then []
  else if machine.cpu.nmiPending then (Entry.interrupt nmiVector).stores machine.cpu
  else if machine.cpu.takesIrq then (Entry.interrupt irqVector).stores machine.cpu
  else machine.instructionStores

/-- The stack pointer behind a step. A reset moves it as if an interrupt had saved its bytes. -/
def pointerAfter (machine : Machine β) : UInt8 :=
  if machine.cpu.takesInstruction then machine.mnemonic.pointerAfter machine.cpu.toRegisters
  else machine.cpu.s - 3

/-- The writes of a step go to different cells. -/
theorem apart_stores (machine : Machine β) : machine.stores.Pairwise Apart := by
  rw [stores]
  split
  · exact .nil
  split
  · exact Entry.apart_stores _ _
  split
  · exact Entry.apart_stores _ _
  rw [instructionStores, Instruction.stores]
  split
  · exact .nil
  rw [Mnemonic.stores]
  split
  · exact Entry.apart_stores _ _
  · cases (decode (machine.read machine.cpu.pc).1).mnemonic.stored? _ _ with
    | none => exact .nil
    | some value => exact List.pairwise_singleton _ _

end Traffic

end Machine

end Nes
