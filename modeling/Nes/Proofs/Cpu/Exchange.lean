import Nes.Cpu.Step
import Nes.Proofs.Bus.Exchange

/-! The processor behind an exchange of the cartridge. It fetches the same instructions and does the
same with them. -/

namespace Nes.Exchange

open Cpu Machine

/-- What a computation gives, with another state in place of the one that it leaves. -/
def withState {ε σ τ α : Type} (change : σ → τ) : EStateM.Result ε σ α → EStateM.Result ε τ α
  | .ok value state => .ok value (change state)
  | .error error state => .error error (change state)

variable {β γ : Type} [Board β] [Board γ] (exchange : Exchange β γ)

def machine (old : Machine β) : Machine γ where
  cpu := old.cpu
  bus := exchange.bus old.bus

/-- A read gives the same byte on both machines and leaves them an exchange apart. -/
theorem read_machine (old : Machine β) (address : UInt16) :
    (exchange.machine old).read address =
      ((old.read address).1, exchange.machine (old.read address).2) := by
  rw [Machine.read, machine, exchange.read_bus]
  rfl

theorem write_machine (old : Machine β) (address : UInt16) (value : UInt8) :
    (exchange.machine old).write address value = exchange.machine (old.write address value) := by
  rw [Machine.write, machine, exchange.write_bus]
  rfl

theorem readWord_machine (old : Machine β) (address : UInt16) :
    (exchange.machine old).readWord address =
      ((old.readWord address).1, exchange.machine (old.readWord address).2) := by
  simp only [readWord, read_machine]

theorem readWordInPage_machine (old : Machine β) (address : UInt16) :
    (exchange.machine old).readWordInPage address =
      ((old.readWordInPage address).1, exchange.machine (old.readWordInPage address).2) := by
  simp only [readWordInPage, read_machine]

theorem fetchByte_machine (old : Machine β) :
    (exchange.machine old).fetchByte =
      (old.fetchByte.1, exchange.machine old.fetchByte.2) := by
  simp only [fetchByte, read_machine]
  rfl

theorem fetchWord_machine (old : Machine β) :
    (exchange.machine old).fetchWord =
      (old.fetchWord.1, exchange.machine old.fetchWord.2) := by
  simp only [fetchWord, readWord_machine]
  rfl

theorem push_machine (old : Machine β) (value : UInt8) :
    (exchange.machine old).push value = exchange.machine (old.push value) := by
  simp only [push, write_machine]
  rfl

theorem pull_machine (old : Machine β) :
    (exchange.machine old).pull = (old.pull.1, exchange.machine old.pull.2) := by
  simp only [pull, read_machine]
  rfl

theorem pushWord_machine (old : Machine β) (word : UInt16) :
    (exchange.machine old).pushWord word = exchange.machine (old.pushWord word) := by
  simp only [pushWord, push_machine]

theorem pullWord_machine (old : Machine β) :
    (exchange.machine old).pullWord = (old.pullWord.1, exchange.machine old.pullWord.2) := by
  simp only [pullWord, pull_machine]

theorem fetchZeroPage_machine (old : Machine β) (index : UInt8) :
    (exchange.machine old).fetchZeroPage index =
      ((old.fetchZeroPage index).1, exchange.machine (old.fetchZeroPage index).2) := by
  simp only [fetchZeroPage, fetchByte_machine]

theorem fetchAbsolute_machine (old : Machine β) (index : UInt8) :
    (exchange.machine old).fetchAbsolute index =
      ((old.fetchAbsolute index).1, exchange.machine (old.fetchAbsolute index).2) := by
  simp only [fetchAbsolute, fetchWord_machine]

/-- Both machines fetch the same operand. -/
theorem fetchOperand_machine (old : Machine β) (mode : AddressingMode) :
    (exchange.machine old).fetchOperand mode =
      ((old.fetchOperand mode).1, exchange.machine (old.fetchOperand mode).2) := by
  cases mode with
  | implied | accumulator | immediate => rfl
  | zeroPage | zeroPageX | zeroPageY => exact exchange.fetchZeroPage_machine old _
  | absolute | absoluteX | absoluteY => exact exchange.fetchAbsolute_machine old _
  | indirect => simp only [fetchOperand, fetchWord_machine, readWordInPage_machine]
  | indirectX | indirectY | relative =>
      simp only [fetchOperand, fetchByte_machine, readWordInPage_machine]
      rfl

theorem interrupt_machine (old : Machine β) (vector : UInt16) (software : Bool) :
    (exchange.machine old).interrupt vector software =
      exchange.machine (old.interrupt vector software) := by
  simp only [interrupt, pushWord_machine, push_machine, readWord_machine]
  rfl

/-- What an instruction does commutes with the exchange. -/
theorem perform_machine (old : Machine β) (effect : Effect) (operand : Operand) :
    (exchange.machine old).perform effect operand =
      exchange.machine (old.perform effect operand) := by
  cases effect with
  | load apply | modify value apply =>
      simp only [perform, read_machine, write_machine]
      rfl
  | store value => exact exchange.write_machine old _ _
  | internal apply | jump => rfl
  | branch taken =>
      rw [perform, perform, apply_ite exchange.machine]
      rfl
  | call =>
      simp only [perform, pushWord_machine]
      rfl
  | returnFromCall | returnFromInterrupt | pull apply =>
      simp only [perform, pull_machine, pullWord_machine]
      rfl
  | softwareInterrupt => exact exchange.interrupt_machine (old.goto (old.cpu.pc + 1)) _ _
  | push value => exact exchange.push_machine old _

theorem reset_machine (old : Machine β) :
    (exchange.machine old).reset = exchange.machine old.reset := by
  simp only [reset, readWord_machine]
  rfl

/-- An instruction gives the same on both machines, a fault included. -/
theorem stepInstruction_machine (old : Machine β) :
    (exchange.machine old).stepInstruction = withState exchange.machine old.stepInstruction := by
  have hGoto (fetched : Machine β) (address : UInt16) :
      (exchange.machine fetched).goto address = exchange.machine (fetched.goto address) := rfl
  have hSpend (done : Machine β) (cycles : UInt64) :
      (exchange.machine done).spend cycles = exchange.machine (done.spend cycles) := rfl
  have hPc : (exchange.machine old).cpu.pc = old.cpu.pc := rfl
  simp only [stepInstruction, hPc, read_machine, hGoto, fetchOperand_machine, perform_machine,
    hSpend]
  cases (decode (old.read old.cpu.pc).1).effect? <;> rfl

/-- A step of the processor gives the same cycles, or the same fault. -/
theorem step_machine (old : Machine β) :
    (exchange.machine old).step = withState exchange.machine old.step := by
  have hCpu : (exchange.machine old).cpu = old.cpu := rfl
  simp only [step, hCpu]
  split
  · rw [reset_machine]
    rfl
  split
  · have hInterrupt :=
      exchange.interrupt_machine { old with cpu.nmiPending := false } nmiVector false
    exact congrArg (fun done : Machine γ => EStateM.Result.ok interruptCycles
      (done.spend interruptCycles)) hInterrupt
  split
  · rw [interrupt_machine]
    rfl
  · exact exchange.stepInstruction_machine old

end Nes.Exchange
