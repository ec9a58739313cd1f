import Nes.Cpu.Mnemonic

/-! The instruction that each opcode stands for. -/

namespace Nes.Cpu

/-- What the processor knows about an opcode. -/
structure Instruction where
  mnemonic : Mnemonic
  /-- Whether the instruction is documented. -/
  documented : Bool
  mode : AddressingMode
  /-- The cycles that the instruction takes at least. -/
  cycles : Nat
  /-- Whether indexing into the next page takes one more cycle. -/
  pagePenalty : Bool
  deriving DecidableEq, Repr

namespace Instruction

/-- The name in a disassembly. A star marks the instructions that are not documented. -/
def name (instruction : Instruction) : String :=
  if instruction.documented then instruction.mnemonic.text
  else "*" ++ instruction.mnemonic.text

def effect? (instruction : Instruction) : Option Effect :=
  instruction.mnemonic.effect? instruction.mode

end Instruction

namespace InstructionSet

def official (mnemonic : Mnemonic) (mode : AddressingMode) (cycles : Nat)
    (pagePenalty : Bool := false) : Instruction :=
  ⟨mnemonic, true, mode, cycles, pagePenalty⟩

def other (mnemonic : Mnemonic) (mode : AddressingMode) (cycles : Nat)
    (pagePenalty : Bool := false) : Instruction :=
  ⟨mnemonic, false, mode, cycles, pagePenalty⟩

/-- The opcodes from `$00` to `$0f`. -/
def row0 : Vector Instruction 16 := #v[
  official .brk .implied 7, official .ora .indirectX 6,
  other .jam .implied 2, other .slo .indirectX 8,
  other .nop .zeroPage 3, official .ora .zeroPage 3,
  official .asl .zeroPage 5, other .slo .zeroPage 5,
  official .php .implied 3, official .ora .immediate 2,
  official .asl .accumulator 2, other .anc .immediate 2,
  other .nop .absolute 4, official .ora .absolute 4,
  official .asl .absolute 6, other .slo .absolute 6
]

def row1 : Vector Instruction 16 := #v[
  official .bpl .relative 2, official .ora .indirectY 5 true,
  other .jam .implied 2, other .slo .indirectY 8,
  other .nop .zeroPageX 4, official .ora .zeroPageX 4,
  official .asl .zeroPageX 6, other .slo .zeroPageX 6,
  official .clc .implied 2, official .ora .absoluteY 4 true,
  other .nop .implied 2, other .slo .absoluteY 7,
  other .nop .absoluteX 4 true, official .ora .absoluteX 4 true,
  official .asl .absoluteX 7, other .slo .absoluteX 7
]

def row2 : Vector Instruction 16 := #v[
  official .jsr .absolute 6, official .and .indirectX 6,
  other .jam .implied 2, other .rla .indirectX 8,
  official .bit .zeroPage 3, official .and .zeroPage 3,
  official .rol .zeroPage 5, other .rla .zeroPage 5,
  official .plp .implied 4, official .and .immediate 2,
  official .rol .accumulator 2, other .anc .immediate 2,
  official .bit .absolute 4, official .and .absolute 4,
  official .rol .absolute 6, other .rla .absolute 6
]

def row3 : Vector Instruction 16 := #v[
  official .bmi .relative 2, official .and .indirectY 5 true,
  other .jam .implied 2, other .rla .indirectY 8,
  other .nop .zeroPageX 4, official .and .zeroPageX 4,
  official .rol .zeroPageX 6, other .rla .zeroPageX 6,
  official .sec .implied 2, official .and .absoluteY 4 true,
  other .nop .implied 2, other .rla .absoluteY 7,
  other .nop .absoluteX 4 true, official .and .absoluteX 4 true,
  official .rol .absoluteX 7, other .rla .absoluteX 7
]

def row4 : Vector Instruction 16 := #v[
  official .rti .implied 6, official .eor .indirectX 6,
  other .jam .implied 2, other .sre .indirectX 8,
  other .nop .zeroPage 3, official .eor .zeroPage 3,
  official .lsr .zeroPage 5, other .sre .zeroPage 5,
  official .pha .implied 3, official .eor .immediate 2,
  official .lsr .accumulator 2, other .alr .immediate 2,
  official .jmp .absolute 3, official .eor .absolute 4,
  official .lsr .absolute 6, other .sre .absolute 6
]

def row5 : Vector Instruction 16 := #v[
  official .bvc .relative 2, official .eor .indirectY 5 true,
  other .jam .implied 2, other .sre .indirectY 8,
  other .nop .zeroPageX 4, official .eor .zeroPageX 4,
  official .lsr .zeroPageX 6, other .sre .zeroPageX 6,
  official .cli .implied 2, official .eor .absoluteY 4 true,
  other .nop .implied 2, other .sre .absoluteY 7,
  other .nop .absoluteX 4 true, official .eor .absoluteX 4 true,
  official .lsr .absoluteX 7, other .sre .absoluteX 7
]

def row6 : Vector Instruction 16 := #v[
  official .rts .implied 6, official .adc .indirectX 6,
  other .jam .implied 2, other .rra .indirectX 8,
  other .nop .zeroPage 3, official .adc .zeroPage 3,
  official .ror .zeroPage 5, other .rra .zeroPage 5,
  official .pla .implied 4, official .adc .immediate 2,
  official .ror .accumulator 2, other .arr .immediate 2,
  official .jmp .indirect 5, official .adc .absolute 4,
  official .ror .absolute 6, other .rra .absolute 6
]

def row7 : Vector Instruction 16 := #v[
  official .bvs .relative 2, official .adc .indirectY 5 true,
  other .jam .implied 2, other .rra .indirectY 8,
  other .nop .zeroPageX 4, official .adc .zeroPageX 4,
  official .ror .zeroPageX 6, other .rra .zeroPageX 6,
  official .sei .implied 2, official .adc .absoluteY 4 true,
  other .nop .implied 2, other .rra .absoluteY 7,
  other .nop .absoluteX 4 true, official .adc .absoluteX 4 true,
  official .ror .absoluteX 7, other .rra .absoluteX 7
]

def row8 : Vector Instruction 16 := #v[
  other .nop .immediate 2, official .sta .indirectX 6,
  other .nop .immediate 2, other .sax .indirectX 6,
  official .sty .zeroPage 3, official .sta .zeroPage 3,
  official .stx .zeroPage 3, other .sax .zeroPage 3,
  official .dey .implied 2, other .nop .immediate 2,
  official .txa .implied 2, other .xaa .immediate 2,
  official .sty .absolute 4, official .sta .absolute 4,
  official .stx .absolute 4, other .sax .absolute 4
]

def row9 : Vector Instruction 16 := #v[
  official .bcc .relative 2, official .sta .indirectY 6,
  other .jam .implied 2, other .ahx .indirectY 6,
  official .sty .zeroPageX 4, official .sta .zeroPageX 4,
  official .stx .zeroPageY 4, other .sax .zeroPageY 4,
  official .tya .implied 2, official .sta .absoluteY 5,
  official .txs .implied 2, other .tas .absoluteY 5,
  other .shy .absoluteX 5, official .sta .absoluteX 5,
  other .shx .absoluteY 5, other .ahx .absoluteY 5
]

def rowA : Vector Instruction 16 := #v[
  official .ldy .immediate 2, official .lda .indirectX 6,
  official .ldx .immediate 2, other .lax .indirectX 6,
  official .ldy .zeroPage 3, official .lda .zeroPage 3,
  official .ldx .zeroPage 3, other .lax .zeroPage 3,
  official .tay .implied 2, official .lda .immediate 2,
  official .tax .implied 2, other .lxa .immediate 2,
  official .ldy .absolute 4, official .lda .absolute 4,
  official .ldx .absolute 4, other .lax .absolute 4
]

def rowB : Vector Instruction 16 := #v[
  official .bcs .relative 2, official .lda .indirectY 5 true,
  other .jam .implied 2, other .lax .indirectY 5 true,
  official .ldy .zeroPageX 4, official .lda .zeroPageX 4,
  official .ldx .zeroPageY 4, other .lax .zeroPageY 4,
  official .clv .implied 2, official .lda .absoluteY 4 true,
  official .tsx .implied 2, other .las .absoluteY 4 true,
  official .ldy .absoluteX 4 true, official .lda .absoluteX 4 true,
  official .ldx .absoluteY 4 true, other .lax .absoluteY 4 true
]

def rowC : Vector Instruction 16 := #v[
  official .cpy .immediate 2, official .cmp .indirectX 6,
  other .nop .immediate 2, other .dcp .indirectX 8,
  official .cpy .zeroPage 3, official .cmp .zeroPage 3,
  official .dec .zeroPage 5, other .dcp .zeroPage 5,
  official .iny .implied 2, official .cmp .immediate 2,
  official .dex .implied 2, other .axs .immediate 2,
  official .cpy .absolute 4, official .cmp .absolute 4,
  official .dec .absolute 6, other .dcp .absolute 6
]

def rowD : Vector Instruction 16 := #v[
  official .bne .relative 2, official .cmp .indirectY 5 true,
  other .jam .implied 2, other .dcp .indirectY 8,
  other .nop .zeroPageX 4, official .cmp .zeroPageX 4,
  official .dec .zeroPageX 6, other .dcp .zeroPageX 6,
  official .cld .implied 2, official .cmp .absoluteY 4 true,
  other .nop .implied 2, other .dcp .absoluteY 7,
  other .nop .absoluteX 4 true, official .cmp .absoluteX 4 true,
  official .dec .absoluteX 7, other .dcp .absoluteX 7
]

def rowE : Vector Instruction 16 := #v[
  official .cpx .immediate 2, official .sbc .indirectX 6,
  other .nop .immediate 2, other .isb .indirectX 8,
  official .cpx .zeroPage 3, official .sbc .zeroPage 3,
  official .inc .zeroPage 5, other .isb .zeroPage 5,
  official .inx .implied 2, official .sbc .immediate 2,
  official .nop .implied 2, other .sbc .immediate 2,
  official .cpx .absolute 4, official .sbc .absolute 4,
  official .inc .absolute 6, other .isb .absolute 6
]

def rowF : Vector Instruction 16 := #v[
  official .beq .relative 2, official .sbc .indirectY 5 true,
  other .jam .implied 2, other .isb .indirectY 8,
  other .nop .zeroPageX 4, official .sbc .zeroPageX 4,
  official .inc .zeroPageX 6, other .isb .zeroPageX 6,
  official .sed .implied 2, official .sbc .absoluteY 4 true,
  other .nop .implied 2, other .isb .absoluteY 7,
  other .nop .absoluteX 4 true, official .sbc .absoluteX 4 true,
  official .inc .absoluteX 7, other .isb .absoluteX 7
]

/-- The rows of the instruction set, one for each value of the upper half of an opcode. -/
def rows : Vector (Vector Instruction 16) 16 := #v[
  row0, row1, row2, row3, row4, row5, row6, row7, row8, row9, rowA, rowB, rowC, rowD, rowE, rowF
]

end InstructionSet

def decode (opcode : UInt8) : Instruction :=
  let row : Fin 16 := ⟨opcode.toNat / 16, by have := opcode.toNat_lt; omega⟩
  let column : Fin 16 := ⟨opcode.toNat % 16, by omega⟩
  InstructionSet.rows[row][column]

/-- What holds of every entry of the instruction set holds of every decoded instruction. -/
theorem forall_decode {p : Instruction → Prop}
    (hRows : ∀ row column : Fin 16, p InstructionSet.rows[row][column]) (opcode : UInt8) :
    p (decode opcode) :=
  hRows _ _

end Nes.Cpu
