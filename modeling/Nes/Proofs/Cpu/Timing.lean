import Nes.Proofs.Cpu.Fetch

/-! The cycles of instructions. The published tables go by what an instruction does with the byte at
the address of its operand, by the addressing mode, and by what indexing and branching come across.
The instruction set says the cycles of each opcode on its own, and it agrees with the tables. -/

namespace Nes

namespace Cpu

open Bus (Access)

/-- What an instruction does with the byte at the address of its operand. -/
inductive Usage where
  | reads
  | stores
  /-- Reads the byte and stores another one. -/
  | modifies
  deriving DecidableEq, Repr

/-- The published cycles of an instruction that uses its operand in memory. Only an instruction that
reads can save the cycle for the upper byte of an indexed address, and spends it if indexing carries
into that byte. -/
def Usage.cycles? (usage : Usage) (mode : AddressingMode) (carries : Bool) : Option Nat :=
  match usage, mode with
  | .reads, .immediate => some 2
  | .reads, .zeroPage => some 3
  | .reads, .zeroPageX | .reads, .zeroPageY | .reads, .absolute => some 4
  | .reads, .absoluteX | .reads, .absoluteY => some (4 + carries.toNat)
  | .reads, .indirectX => some 6
  | .reads, .indirectY => some (5 + carries.toNat)
  | .stores, .zeroPage => some 3
  | .stores, .zeroPageX | .stores, .zeroPageY | .stores, .absolute => some 4
  | .stores, .absoluteX | .stores, .absoluteY => some 5
  | .stores, .indirectX | .stores, .indirectY => some 6
  | .modifies, .zeroPage => some 5
  | .modifies, .zeroPageX | .modifies, .zeroPageY | .modifies, .absolute => some 6
  | .modifies, .absoluteX | .modifies, .absoluteY => some 7
  | .modifies, .indirectX | .modifies, .indirectY => some 8
  | _, _ => none

/-- What an instruction comes across on its way. -/
structure Circumstances where
  /-- Indexing carries into the upper byte of the address. -/
  carries : Bool
  /-- A branch is taken. -/
  taken : Bool
  /-- The target of a branch is on another page than the instruction behind it. -/
  leavesPage : Bool

/-- The published cycles of an instruction, given how it uses its operand in memory, if it does. The
instructions that work on the stack or on the program counter have their own. -/
def Mnemonic.published? (mnemonic : Mnemonic) (mode : AddressingMode) (usage : Option Usage)
    (circumstances : Circumstances) : Option Nat :=
  match mnemonic with
  | .pha | .php => some 3
  | .pla | .plp => some 4
  | .jsr | .rts | .rti => some 6
  | .brk => some 7
  | .jmp =>
    match mode with
    | .absolute => some 3
    | .indirect => some 5
    | _ => none
  | .bcc | .bcs | .beq | .bmi | .bne | .bpl | .bvc | .bvs =>
    if circumstances.taken then some (3 + circumstances.leavesPage.toNat) else some 2
  | _ =>
    match usage with
    | some usage => usage.cycles? mode circumstances.carries
    | none => if mode = .implied ∨ mode = .accumulator then some 2 else none

/-- What accesses do with the byte at an address, if they do nothing else. -/
def usageAt? (address : UInt16) : List Access → Option Usage
  | [.read place] => if place = address then some .reads else none
  | [.write place _] => if place = address then some .stores else none
  | [.read place, .write stored _] =>
    if place = address ∧ stored = address then some .modifies else none
  | _ => none

namespace Effect

def usage? : Effect → Option Usage
  | load _ => some .reads
  | store _ => some .stores
  | modify _ _ => some .modifies
  | _ => none

/-- The effect moves a byte to the stack or from it. -/
def movesByte : Effect → Bool
  | push _ | pull _ => true
  | _ => false

def isBranch : Effect → Bool
  | branch _ => true
  | _ => false

/-- The effect is that of a branch whose condition holds. -/
def takesBranch (effect : Effect) (flags : Flags) : Bool :=
  match effect with
  | branch taken => taken flags
  | _ => false

/-- A branch that is taken costs one cycle, and one more on another page. -/
theorem branching_eq (effect : Effect) (operand : Operand) (flags : Flags) :
    effect.branching operand flags =
      if effect.takesBranch flags then 1 + operand.pageCrossed.toNat else 0 := by
  cases effect with
  | branch taken =>
      simp only [branching, takesBranch]
      cases operand.pageCrossed <;> rfl
  | _ => rfl

/-- Only a branch can be taken. -/
theorem isBranch_of_takesBranch {effect : Effect} {flags : Flags}
    (hTakes : effect.takesBranch flags = true) : effect.isBranch = true := by
  cases effect with
  | branch taken => rfl
  | _ => cases hTakes

end Effect

/-- Adding an index to a base carries into the upper byte. -/
def carriesInto (base : UInt16) (index : UInt8) : Bool :=
  decide (255 < base.toNat % 256 + index.toNat)

/-- A sum is on another page than its base exactly if there is a carry into the upper byte. -/
theorem pageCrossed_indexed (base : UInt16) (index : UInt8) :
    (Operand.indexed base index.toUInt16).pageCrossed = carriesInto base index := by
  have hBase := base.toNat_lt
  have hIndex := index.toNat_lt
  simp only [Operand.indexed, samePage, pageOf, carriesInto, UInt16.toNat_add,
    UInt8.toNat_toUInt16]
  rw [Bool.eq_iff_iff, Bool.not_eq_true', beq_eq_false_iff_ne, decide_eq_true_eq]
  omega

theorem carriesInto_zero (base : UInt16) : carriesInto base 0 = false := by
  rw [carriesInto, decide_eq_false_iff_not]
  exact Nat.not_lt.mpr (Nat.le_of_lt_succ (Nat.mod_lt _ (by decide)))

/-- An instruction that moves a byte to the stack or from it has no operand. -/
theorem mode_of_movesByte (opcode : UInt8) : ∀ effect ∈ (decode opcode).effect?,
    effect.movesByte = true → (decode opcode).mode = .implied :=
  forall_decode (p := fun instruction => ∀ effect ∈ instruction.effect?,
    effect.movesByte = true → instruction.mode = .implied) (by decide) opcode

def Instruction.extraCycles (instruction : Instruction) (branches : Bool)
    (circumstances : Circumstances) : Nat :=
  (instruction.pagePenalty && circumstances.carries).toNat +
    if branches && circumstances.taken then 1 + circumstances.leavesPage.toNat else 0

/-- The instruction set has the published cycles, opcode by opcode. -/
theorem published_decode (opcode : UInt8) (carries taken leavesPage : Bool) :
    ∀ effect ∈ (decode opcode).effect?,
      (decode opcode).mnemonic.published? (decode opcode).mode effect.usage?
          ⟨carries, taken, leavesPage⟩ =
        some ((decode opcode).cycles +
          (decode opcode).extraCycles effect.isBranch ⟨carries, taken, leavesPage⟩) := by
  revert carries taken leavesPage
  exact forall_decode (p := fun instruction => ∀ carries taken leavesPage : Bool,
    ∀ effect ∈ instruction.effect?,
      instruction.mnemonic.published? instruction.mode effect.usage?
          ⟨carries, taken, leavesPage⟩ =
        some (instruction.cycles +
          instruction.extraCycles effect.isBranch ⟨carries, taken, leavesPage⟩))
    (by decide +kernel) opcode

/-- Branches, and no other instructions, have a distance for their operand, and the cycles of that
mode have no price for indexing. -/
theorem mode_of_isBranch (opcode : UInt8) : ∀ effect ∈ (decode opcode).effect?,
    (effect.isBranch = true → (decode opcode).mode = .relative) ∧
      ((decode opcode).mode = .relative → (decode opcode).pagePenalty = false) :=
  forall_decode (p := fun instruction => ∀ effect ∈ instruction.effect?,
    (effect.isBranch = true → instruction.mode = .relative) ∧
      (instruction.mode = .relative → instruction.pagePenalty = false)) (by decide) opcode

end Cpu

namespace Machine

open Cpu
open Bus (Access)

variable {β : Type} [Board β]

/-- What an instruction at the program counter comes across, given its mode and its effect. -/
def circumstances (machine : Machine β) (mode : AddressingMode) (effect : Effect) :
    Circumstances where
  carries :=
    let start := machine.behindOpcode
    match mode with
    | .absoluteX => carriesInto start.fetchWord.1 machine.cpu.x
    | .absoluteY => carriesInto start.fetchWord.1 machine.cpu.y
    | .indirectY =>
      let (pointer, fetched) := start.fetchByte
      carriesInto (fetched.readWordInPage pointer.toUInt16).1 machine.cpu.y
    | _ => false
  taken := effect.takesBranch machine.cpu.flags
  leavesPage := !samePage (machine.cpu.pc + 2) (machine.behindOpcode.fetchOperand mode).1.address

/-- Fetching an operand notices that it is on another page than its base, or than the instruction
behind a branch. -/
theorem pageCrossed_fetchOperand (machine : Machine β) (mode : AddressingMode) (effect : Effect) :
    (machine.behindOpcode.fetchOperand mode).1.pageCrossed =
      if mode = .relative then (machine.circumstances mode effect).leavesPage
      else (machine.circumstances mode effect).carries := by
  cases mode with
  | absolute => exact (pageCrossed_indexed _ 0).trans (carriesInto_zero _)
  | absoluteX => exact pageCrossed_indexed _ _
  | absoluteY => exact pageCrossed_indexed _ _
  | indirectY => exact pageCrossed_indexed _ _
  | relative =>
      have hBehind : machine.behindOpcode.fetchByte.2.cpu.pc = machine.cpu.pc + 2 :=
        UInt16.add_assoc _ 1 1
      simp only [circumstances, if_true, ← hBehind]
      rfl
  | _ => rfl

theorem stackAddress_ne_zero (s : UInt8) : stackAddress s ≠ 0 := by
  intro hZero
  have hPlace := toNat_stackAddress s
  rw [hZero] at hPlace
  exact absurd hPlace (Nat.ne_of_lt (Nat.add_pos_left (by decide) _))

/-- The accesses of an effect show how it uses its operand. A byte that moves to the stack or from
it is not at the address of an operand. -/
theorem usageAt?_effectTraffic (machine : Machine β) (effect : Effect) (operand : Operand)
    (hStack : effect.movesByte = true → operand.address = 0) :
    usageAt? operand.address (machine.effectTraffic effect operand) = effect.usage? := by
  cases effect with
  | load apply => exact if_pos rfl
  | store value => exact if_pos rfl
  | modify result apply => exact if_pos ⟨rfl, rfl⟩
  | push value =>
      rw [hStack rfl]
      exact if_neg (stackAddress_ne_zero _)
  | pull apply =>
      rw [hStack rfl]
      exact if_neg (stackAddress_ne_zero _)
  | _ => rfl

/-- The cycles that an instruction adds to those of its opcode depend on what it comes across. -/
theorem toNat_cost_fetchOperand (machine : Machine β) {effect : Effect}
    (hEffect : (decode (machine.read machine.cpu.pc).1).effect? = some effect) :
    let instruction := decode (machine.read machine.cpu.pc).1
    let fetched := machine.behindOpcode.fetchOperand instruction.mode
    (instruction.cost effect fetched.1 fetched.2.cpu.flags).toNat = instruction.cycles +
      instruction.extraCycles effect.isBranch (machine.circumstances instruction.mode effect) := by
  intro instruction fetched
  let circumstances := machine.circumstances instruction.mode effect
  obtain ⟨hBranch, hRelative⟩ := mode_of_isBranch _ effect hEffect
  have hCrossed : fetched.1.pageCrossed =
      if instruction.mode = .relative then circumstances.leavesPage else circumstances.carries :=
    machine.pageCrossed_fetchOperand instruction.mode effect
  have hIndexing : (instruction.pagePenalty && fetched.1.pageCrossed) =
      (instruction.pagePenalty && circumstances.carries) := by
    rw [hCrossed]
    split
    · rename_i hMode
      rw [hRelative hMode]
      rfl
    · rfl
  have hBranching : effect.branching fetched.1 machine.cpu.flags =
      if effect.isBranch && circumstances.taken then 1 + circumstances.leavesPage.toNat
      else 0 := by
    have hTaken : circumstances.taken = effect.takesBranch machine.cpu.flags := rfl
    rw [effect.branching_eq, hTaken]
    cases hTakes : effect.takesBranch machine.cpu.flags with
    | true =>
        have hIs := Effect.isBranch_of_takesBranch hTakes
        rw [hCrossed, if_pos (hBranch hIs), hIs]
        rfl
    | false =>
        rw [Bool.and_false]
        rfl
  have hFlags : fetched.2.cpu.flags = machine.cpu.flags :=
    congrArg Registers.flags (machine.registers_fetchOperand instruction.mode)
  rw [toNat_cost fetched.1 fetched.2.cpu.flags hEffect, hFlags, hIndexing, hBranching,
    Nat.add_assoc]
  rfl

/-- The address of the operand of an instruction that moves a byte to the stack or from it. -/
theorem address_of_movesByte (machine : Machine β) {effect : Effect}
    (hEffect : (decode (machine.read machine.cpu.pc).1).effect? = some effect)
    (hMoves : effect.movesByte = true) :
    (machine.behindOpcode.fetchOperand
      (decode (machine.read machine.cpu.pc).1).mode).1.address = 0 := by
  rw [mode_of_movesByte _ effect hEffect hMoves]
  rfl

/-- A branch goes to the address of its operand if it is taken, and to the instruction behind it
otherwise. -/
theorem pc_perform_branch (machine : Machine β) {effect : Effect}
    (hBranch : effect.isBranch = true) :
    let fetched := machine.behindOpcode.fetchOperand .relative
    (fetched.2.perform effect fetched.1).cpu.pc =
      if effect.takesBranch machine.cpu.flags then fetched.1.address else machine.cpu.pc + 2 := by
  intro fetched
  have hFlags : fetched.2.cpu.flags = machine.cpu.flags :=
    congrArg Registers.flags (machine.registers_fetchOperand .relative)
  have hBehind : fetched.2.cpu.pc = machine.cpu.pc + 2 := UInt16.add_assoc _ 1 1
  cases effect with
  | branch taken =>
      rw [perform, hFlags, Effect.takesBranch]
      split
      · rfl
      · exact hBehind
  | _ => cases hBranch

/-- Instructions take the published cycles. With no reset or interrupt due, an instruction with a
dependable effect reads its opcode and its operand, and then does nothing on the bus except the
accesses of its effect. Its cycles are those published for the way these use the byte at the address
of the operand, for the addressing mode and for what indexing and branching come across. A branch
that counts as taken is one that goes to the address of its operand. -/
theorem cycles_as_published (machine : Machine β) {effect : Effect}
    (hNothingDue : machine.cpu.takesInstruction = true)
    (hEffect : (decode (machine.read machine.cpu.pc).1).effect? = some effect) :
    let instruction := decode (machine.read machine.cpu.pc).1
    let start := machine.behindOpcode
    let fetched := start.fetchOperand instruction.mode
    let accesses := fetched.2.effectTraffic effect fetched.1
    ∃ cycles next, machine.step = .ok cycles next ∧
      next.cpu.cycles = machine.cpu.cycles + cycles ∧
      fetched.2.bus = machine.bus.accessAll
        (.read machine.cpu.pc :: start.operandTraffic instruction.mode) ∧
      next.bus = fetched.2.bus.accessAll accesses ∧
      usageAt? fetched.1.address accesses = effect.usage? ∧
      (effect.isBranch = true → next.cpu.pc =
        if (machine.circumstances instruction.mode effect).taken then fetched.1.address
        else machine.cpu.pc + 2) ∧
      instruction.mnemonic.published? instruction.mode (usageAt? fetched.1.address accesses)
        (machine.circumstances instruction.mode effect) = some cycles.toNat := by
  intro instruction start fetched accesses
  have hWorks := works_effect fetched.2 effect fetched.1
  have hUsage : usageAt? fetched.1.address accesses = effect.usage? :=
    usageAt?_effectTraffic fetched.2 effect fetched.1 (machine.address_of_movesByte hEffect)
  have hStep := (machine.step_of_takesInstruction hNothingDue).trans
    (machine.stepInstruction_eq hEffect)
  have hCycles : instruction.mnemonic.published? instruction.mode effect.usage?
      (machine.circumstances instruction.mode effect) =
        some (instruction.cost effect fetched.1 fetched.2.cpu.flags).toNat := by
    rw [machine.toNat_cost_fetchOperand hEffect]
    exact published_decode _ _ _ _ effect hEffect
  refine ⟨_, _, hStep, (step_ok hStep).2.1, (works_operand start instruction.mode).bus, hWorks.bus,
    hUsage, ?_, ?_⟩
  · intro hBranch
    have hRelative : instruction.mode = .relative := (mode_of_isBranch _ effect hEffect).1 hBranch
    have hTarget := machine.pc_perform_branch hBranch
    rw [← hRelative] at hTarget
    exact hTarget
  · rw [hUsage]
    exact hCycles

/-- A machine before `LDA $12F0,X`, whose index carries into the next page. -/
def indexing : Machine Nrom where
  cpu := { x := 0x34 }
  bus :=
    let cartridge : Cartridge Nrom := { board := ⟨⟨#[], #[], #[], false, .horizontal⟩⟩ }
    (({ video := { cartridge } : Bus Nrom }.write 0x0000 0xbd).write 0x0001 0xf0).write 0x0002 0x12

/-- A machine before a branch that is taken from `$00F2` to the next page. -/
def branching : Machine Nrom where
  cpu := { pc := 0x00f0 }
  bus :=
    let cartridge : Cartridge Nrom := { board := ⟨⟨#[], #[], #[], false, .horizontal⟩⟩ }
    ({ video := { cartridge } : Bus Nrom }.write 0x00f0 0xd0).write 0x00f1 0x20

/-- Indexing into the next page costs one cycle, and branching into it costs two. -/
theorem cycles_as_published_indexing :
    indexing.cpu.takesInstruction = true ∧
    (decode (indexing.read indexing.cpu.pc).1).effect?.isSome = true ∧
    (∃ next, indexing.step = .ok 5 next ∧ next.cpu.cycles = 5) ∧
    branching.cpu.takesInstruction = true ∧
    (decode (branching.read branching.cpu.pc).1).effect?.isSome = true ∧
    ∃ next, branching.step = .ok 4 next ∧ next.cpu.pc = 0x0112 := by
  have hIndexing : indexing.cpu.takesInstruction = true := rfl
  have hBranching : branching.cpu.takesInstruction = true := rfl
  obtain ⟨cycles, next, hStep, hCount, -, -, -, -, hPublished⟩ :=
    cycles_as_published indexing hIndexing rfl
  have hCycles : cycles = 5 :=
    UInt64.toNat_inj.mp (Option.some.inj (hPublished.symm.trans (by decide)))
  obtain ⟨branchCycles, target, hBranch, -, -, -, -, hTarget, hTaken⟩ :=
    cycles_as_published branching hBranching rfl
  have hBranchCycles : branchCycles = 4 :=
    UInt64.toNat_inj.mp (Option.some.inj (hTaken.symm.trans (by decide)))
  rw [hCycles] at hStep hCount
  rw [hBranchCycles] at hBranch
  exact ⟨hIndexing, by decide, ⟨next, hStep, hCount⟩, hBranching, by decide, target, hBranch,
    (hTarget rfl).trans (by decide)⟩

end Machine

end Nes
