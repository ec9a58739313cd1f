import Nes.Proofs.Cpu.StackFrames

/-! Instructions that are not documented and do what two documented ones do one after the other. The
documentation knows them by these pairs. -/

namespace Nes

namespace Cpu

/-- The two documented operations that a combined one does, one after the other. -/
def Mnemonic.parts? : Mnemonic → Option (Mnemonic × Mnemonic)
  | slo => some (asl, ora)
  | rla => some (rol, and)
  | sre => some (lsr, eor)
  | rra => some (ror, adc)
  | dcp => some (dec, cmp)
  | isb => some (inc, sbc)
  | lax => some (lda, ldx)
  | _ => none

namespace Effect

def usesByte : Effect → Bool
  | load _ | modify _ _ => true
  | _ => false

/-- An effect on a byte in memory, after which the byte is loaded once more. -/
def thenLoad (effect : Effect) (next : Registers → UInt8 → Registers) : Effect :=
  match effect with
  | load apply => .load fun registers value => next (apply registers value) value
  | modify result apply =>
    .modify result fun registers value => next (apply registers value) (result registers value)
  | other => other

end Effect

/-- The opcode of a combined operation, and those of its parts. Shifts of the accumulator do not
work on the operand. -/
structure Combines (opcode first second : UInt8) : Prop where
  parts : (decode opcode).mnemonic.parts? =
    some ((decode first).mnemonic, (decode second).mnemonic)
  memory : (decode first).mode ≠ .accumulator

/-- The effect of a combined operation is that of its parts. The second one loads the byte that the
first one has worked on. -/
theorem Combines.exists_effect {opcode first second : UInt8}
    (hCombines : Combines opcode first second) :
    ∃ effect next, (decode first).effect? = some effect ∧ effect.usesByte = true ∧
      (decode second).effect? = some (.load next) ∧
      (decode opcode).effect? = some (effect.thenLoad next) := by
  obtain ⟨hParts, hMemory⟩ := hCombines
  have hShift (operation : Flags → UInt8 → UInt8 × Flags) :
      Effect.shift (decode first).mode operation = .shiftMemory operation := if_neg hMemory
  simp only [Instruction.effect?]
  generalize (decode first).mnemonic = before, (decode second).mnemonic = behind at hParts ⊢
  -- the flags that both parts set are set twice, and those that are handed on are read in between
  cases hName : (decode opcode).mnemonic with
  | slo | rla | sre | rra =>
      rw [hName] at hParts
      cases hParts
      exact ⟨_, _, congrArg some (hShift _), rfl, rfl, rfl⟩
  | dcp | isb | lax =>
      rw [hName] at hParts
      cases hParts
      exact ⟨_, _, rfl, rfl, rfl, rfl⟩
  | _ =>
      rw [hName] at hParts
      cases hParts

end Cpu

namespace Machine

open Cpu
open Bus (InWorkMemory)

/-- Work memory holds on to a byte, so it can be loaded once more. -/
theorem perform_thenLoad (machine : Machine Nrom) {effect : Effect}
    (hUses : effect.usesByte = true) (next : Registers → UInt8 → Registers) {operand : Operand}
    (hPlace : InWorkMemory operand.address) :
    machine.perform (effect.thenLoad next) operand =
      (machine.perform effect operand).perform (.load next) operand := by
  cases effect with
  | load apply =>
      have hAgain := machine.bus.drive_again (Bus.not_asks_of_workMemory hPlace)
      simp only [Effect.thenLoad, perform, withRegisters, read, Bus.read, hAgain]
  | modify result apply =>
      simp only [Effect.thenLoad, perform, withRegisters, read, write, Bus.read,
        Bus.drive_write _ _ hPlace, Bus.latch_write]
  | _ => cases hUses

/-- On a cell of memory, a combined instruction does what the two official ones do after each other.
-/
theorem operate_combined (machine : Machine Nrom) {opcode first second : UInt8}
    (hCombines : Combines opcode first second) {operand : Operand}
    (hPlace : InWorkMemory operand.address) :
    machine.operate opcode operand =
      (machine.operate first operand).operate second operand := by
  obtain ⟨effect, next, hFirst, hUses, hSecond, hBoth⟩ := hCombines.exists_effect
  rw [operate_eq _ hBoth, operate_eq _ hFirst, operate_eq _ hSecond]
  exact machine.perform_thenLoad hUses next hPlace

/-- The instructions that are not documented do what is known of them. A combined operation on a
byte in work memory leaves everything as its two parts do, one after the other on the same operand,
and this is what its step does once the operand is fetched. `SAX` stores the conjunction of
accumulator and index register and leaves the processor alone. `ALR` does what `AND` does and then
shifts the accumulator. `AXS` compares as if the conjunction were in the accumulator, and its
difference from the operand is the new index register. -/
theorem combined_as_documented (machine : Machine Nrom) (operand : Operand) :
    let conjunction := machine.cpu.a &&& machine.cpu.x
    (∀ opcode first second, Combines opcode first second → InWorkMemory operand.address →
      machine.operate opcode operand =
        (machine.operate first operand).operate second operand) ∧
    (∀ first second,
      let opcode := (machine.read machine.cpu.pc).1
      let fetched := machine.behindOpcode.fetchOperand (decode opcode).mode
      machine.cpu.takesInstruction = true → Combines opcode first second →
      InWorkMemory fetched.1.address →
        ∃ cycles, machine.step = .ok cycles
          (((fetched.2.operate first fetched.1).operate second fetched.1).spend cycles)) ∧
    (∀ opcode, (decode opcode).mnemonic = .sax →
      let after := machine.operate opcode operand
      after.cpu = machine.cpu ∧ after.bus = machine.bus.write operand.address conjunction ∧
        (InWorkMemory operand.address → after.bus.peek operand.address = conjunction)) ∧
    (∀ opcode first second, (decode opcode).mnemonic = .alr → (decode first).mnemonic = .and →
      (decode second).mnemonic = .lsr → (decode second).mode = .accumulator →
        machine.operate opcode operand = (machine.operate first operand).operate second) ∧
    ∀ opcode comparing, (decode opcode).mnemonic = .axs → (decode comparing).mnemonic = .cmp →
      let joint := machine.withRegisters { machine.cpu.toRegisters with a := conjunction }
      let compared := joint.operate comparing operand
      machine.operate opcode operand = compared.withRegisters
        { compared.cpu.toRegisters with
          a := machine.cpu.a
          x := conjunction - (machine.read operand.address).1 } := by
  intro conjunction
  refine ⟨fun opcode first second hCombines hPlace => machine.operate_combined hCombines hPlace,
    fun first second => ?_, fun opcode hSax => ?_,
    fun opcode first second hAlr hAnd hLsr hAccumulator => ?_,
    fun opcode comparing hAxs hCmp => ?_⟩
  · intro opcode fetched hTakes hCombines hPlace
    obtain ⟨effect, next, -, -, -, hBoth⟩ := hCombines.exists_effect
    obtain ⟨cycles, hStep⟩ := machine.stepInstruction_operate
      (Option.isSome_iff_exists.mpr ⟨_, hBoth⟩)
    refine ⟨cycles, (machine.step_of_takesInstruction hTakes).trans (hStep.trans ?_)⟩
    rw [← fetched.2.operate_combined hCombines hPlace]
  · have hEffect : (decode opcode).effect? = some (.store fun r => r.a &&& r.x) :=
      congrArg (Mnemonic.effect? · (decode opcode).mode) hSax
    rw [operate_eq _ hEffect]
    exact ⟨rfl, rfl, fun hPlace => Bus.peek_written _ _ hPlace⟩
  · have hEffect : (decode opcode).effect? = Mnemonic.effect? .alr .immediate :=
      congrArg (Mnemonic.effect? · (decode opcode).mode) hAlr
    have hFirst : (decode first).effect? = Mnemonic.effect? .and .immediate :=
      congrArg (Mnemonic.effect? · (decode first).mode) hAnd
    have hSecond : (decode second).effect? = some (.shiftAccumulator shiftRight) := by
      rw [Instruction.effect?, hLsr, hAccumulator]
      rfl
    rw [operate_eq _ hEffect, operate_eq _ hFirst, operate_eq _ hSecond]
    rfl
  · have hEffect : (decode opcode).effect? = Mnemonic.effect? .axs .immediate :=
      congrArg (Mnemonic.effect? · (decode opcode).mode) hAxs
    have hCompare : (decode comparing).effect? = Mnemonic.effect? .cmp .immediate :=
      congrArg (Mnemonic.effect? · (decode comparing).mode) hCmp
    intro joint compared
    rw [operate_eq _ hEffect]
    simp only [compared, operate_eq _ hCompare]
    rfl

/-- A machine before `SLO $10`, with a byte there and one at `$6123`. -/
def combining : Machine Nrom where
  cpu := { pc := 0x0200, a := 0x0f, x := 0x33 }
  bus :=
    let cartridge : Cartridge Nrom :=
      { board := ⟨⟨#[0xff], Array.replicate 0x2000 0, #[], false, .horizontal⟩⟩ }
    let bus : Bus Nrom := { video := { cartridge } }
    (((bus.write 0x0200 0x07).write 0x0201 0x10).write 0x0010 0xc1).write 0x6123 0x55

/-- A shift that is combined with a disjunction. -/
theorem combined_as_documented_combining :
    combining.operate 0x07 { address := 0x0010 } =
      (combining.operate 0x06 { address := 0x0010 }).operate 0x05 { address := 0x0010 } ∧
    (combining.operate 0x07 { address := 0x0010 }).cpu.a = 0x8f ∧
    combining.operate 0x6f { address := 0x6123 } =
      (combining.operate 0x6e { address := 0x6123 }).operate 0x6d { address := 0x6123 } ∧
    (∃ cycles, combining.step = .ok cycles
      ((((combining.behindOpcode.fetchOperand .zeroPage).2.operate 0x06
        { address := 0x0010 }).operate 0x05 { address := 0x0010 }).spend cycles)) ∧
    (combining.operate 0x87 { address := 0x6123 }).bus.peek 0x6123 = 0x03 ∧
    combining.operate 0x4b { address := 0x0201 } =
      (combining.operate 0x29 { address := 0x0201 }).operate 0x4a ∧
    (combining.operate 0xcb { address := 0x0201 }).cpu.x = 0xf3 := by
  have hSlo : Combines 0x07 0x06 0x05 := ⟨by decide, by decide⟩
  have hRra : Combines 0x6f 0x6e 0x6d := ⟨by decide, by decide⟩
  have hOpcode : (combining.read combining.cpu.pc).1 = 0x07 := by decide +kernel
  have hMode : (decode 0x07).mode = .zeroPage := by decide
  have hFetched : (combining.behindOpcode.fetchOperand .zeroPage).1 = { address := 0x0010 } := by
    decide +kernel
  obtain ⟨hFirst, hStep, -, -, -⟩ := combined_as_documented combining { address := 0x0010 }
  obtain ⟨hSecond, -, hSax, -, -⟩ := combined_as_documented combining { address := 0x6123 }
  obtain ⟨-, -, -, hAlr, hAxs⟩ := combined_as_documented combining { address := 0x0201 }
  simp only [hOpcode, hMode, hFetched] at hStep
  refine ⟨hFirst _ _ _ hSlo (by decide), by decide +kernel, hSecond _ _ _ hRra (by decide),
    hStep 0x06 0x05 (by decide) hSlo (by decide), ?_,
    hAlr _ _ _ (by decide) (by decide) (by decide) (by decide), ?_⟩
  · exact ((hSax 0x87 (by decide)).2.2 (by decide)).trans (by decide)
  · rw [hAxs 0xcb 0xc9 (by decide) (by decide)]
    decide +kernel

end Machine

end Nes
