import Nes.Cpu.Effect

/-! The operations of the processor by name, and the effect of each. -/

namespace Nes.Cpu

/-- The names of operations: the documented ones, the ones that result from two documented ones at
once, and the ones that stop the processor or have no dependable effect. -/
inductive Mnemonic where
  | adc | and | asl | bcc | bcs | beq | bit | bmi | bne | bpl | brk | bvc | bvs | clc | cld | cli
  | clv | cmp | cpx | cpy | dec | dex | dey | eor | inc | inx | iny | jmp | jsr | lda | ldx | ldy
  | lsr | nop | ora | pha | php | pla | plp | rol | ror | rti | rts | sbc | sec | sed | sei | sta
  | stx | sty | tax | tay | tsx | txa | txs | tya
  | alr | anc | arr | axs | dcp | isb | lax | rla | rra | sax | slo | sre
  | ahx | jam | las | lxa | shx | shy | tas | xaa
  deriving DecidableEq, Repr

namespace Mnemonic

def text : Mnemonic → String
  | adc => "ADC" | and => "AND" | asl => "ASL" | bcc => "BCC" | bcs => "BCS" | beq => "BEQ"
  | bit => "BIT" | bmi => "BMI" | bne => "BNE" | bpl => "BPL" | brk => "BRK" | bvc => "BVC"
  | bvs => "BVS" | clc => "CLC" | cld => "CLD" | cli => "CLI" | clv => "CLV" | cmp => "CMP"
  | cpx => "CPX" | cpy => "CPY" | dec => "DEC" | dex => "DEX" | dey => "DEY" | eor => "EOR"
  | inc => "INC" | inx => "INX" | iny => "INY" | jmp => "JMP" | jsr => "JSR" | lda => "LDA"
  | ldx => "LDX" | ldy => "LDY" | lsr => "LSR" | nop => "NOP" | ora => "ORA" | pha => "PHA"
  | php => "PHP" | pla => "PLA" | plp => "PLP" | rol => "ROL" | ror => "ROR" | rti => "RTI"
  | rts => "RTS" | sbc => "SBC" | sec => "SEC" | sed => "SED" | sei => "SEI" | sta => "STA"
  | stx => "STX" | sty => "STY" | tax => "TAX" | tay => "TAY" | tsx => "TSX" | txa => "TXA"
  | txs => "TXS" | tya => "TYA"
  | alr => "ALR" | anc => "ANC" | arr => "ARR" | axs => "AXS" | dcp => "DCP" | isb => "ISB"
  | lax => "LAX" | rla => "RLA" | rra => "RRA" | sax => "SAX" | slo => "SLO" | sre => "SRE"
  | ahx => "AHX" | jam => "JAM" | las => "LAS" | lxa => "LXA" | shx => "SHX" | shy => "SHY"
  | tas => "TAS" | xaa => "XAA"

/-- The effect of an operation in an addressing mode, or nothing for operations that have no
dependable one. The mode only tells a shift of the accumulator from one of memory, and a pause
without an operand from one that reads its operand and ignores it. -/
def effect? (mnemonic : Mnemonic) (mode : AddressingMode) : Option Effect :=
  match mnemonic with
  | adc => some (.load Registers.adc)
  | and => some (.load fun r value => r.withA (r.a &&& value))
  | asl => some (.shift mode shiftLeft)
  | bcc => some (.branch fun flags => !flags.carry)
  | bcs => some (.branch fun flags => flags.carry)
  | beq => some (.branch fun flags => flags.zero)
  | bit => some (.load Registers.bitTest)
  | bmi => some (.branch fun flags => flags.negative)
  | bne => some (.branch fun flags => !flags.zero)
  | bpl => some (.branch fun flags => !flags.negative)
  | brk => some .softwareInterrupt
  | bvc => some (.branch fun flags => !flags.overflow)
  | bvs => some (.branch fun flags => flags.overflow)
  | clc => some (.setFlags fun flags => { flags with carry := false })
  | cld => some (.setFlags fun flags => { flags with decimal := false })
  | cli => some (.setFlags fun flags => { flags with interruptDisable := false })
  | clv => some (.setFlags fun flags => { flags with overflow := false })
  | cmp => some (.load fun r value => r.compareWith r.a value)
  | cpx => some (.load fun r value => r.compareWith r.x value)
  | cpy => some (.load fun r value => r.compareWith r.y value)
  | dec => some (.stepMemory (-1))
  | dex => some (.internal fun r => r.withX (r.x - 1))
  | dey => some (.internal fun r => r.withY (r.y - 1))
  | eor => some (.load fun r value => r.withA (r.a ^^^ value))
  | inc => some (.stepMemory 1)
  | inx => some (.internal fun r => r.withX (r.x + 1))
  | iny => some (.internal fun r => r.withY (r.y + 1))
  | jmp => some .jump
  | jsr => some .call
  | lda => some (.load fun r value => r.withA value)
  | ldx => some (.load fun r value => r.withX value)
  | ldy => some (.load fun r value => r.withY value)
  | lsr => some (.shift mode shiftRight)
  | nop => some (if mode = .implied then .internal id else .load fun r _ => r)
  | ora => some (.load fun r value => r.withA (r.a ||| value))
  | pha => some (.push fun r => r.a)
  | php => some (.push fun r => r.flags.toByte ||| Flags.breakBit)
  | pla => some (.pull fun r value => r.withA value)
  | plp => some (.pull fun r value => { r with flags := .ofByte value })
  | rol => some (.shift mode rotateLeft)
  | ror => some (.shift mode rotateRight)
  | rti => some .returnFromInterrupt
  | rts => some .returnFromCall
  | sbc => some (.load Registers.sbc)
  | sec => some (.setFlags fun flags => { flags with carry := true })
  | sed => some (.setFlags fun flags => { flags with decimal := true })
  | sei => some (.setFlags fun flags => { flags with interruptDisable := true })
  | sta => some (.store fun r => r.a)
  | stx => some (.store fun r => r.x)
  | sty => some (.store fun r => r.y)
  | tax => some (.internal fun r => r.withX r.a)
  | tay => some (.internal fun r => r.withY r.a)
  | tsx => some (.internal fun r => r.withX r.s)
  | txa => some (.internal fun r => r.withA r.x)
  | txs => some (.internal fun r => { r with s := r.x })
  | tya => some (.internal fun r => r.withA r.y)
  | alr => some (.load fun r value =>
      let (a, flags) := shiftRight r.flags (r.a &&& value)
      { r with a, flags })
  | anc => some (.load fun r value =>
      let r := r.withA (r.a &&& value)
      { r with flags := { r.flags with carry := r.flags.negative } })
  | arr => some (.load Registers.rotateConjunction)
  | axs => some (.load Registers.subtractConjunction)
  | dcp => some (.stepMemory (-1) fun r value => r.compareWith r.a value)
  | isb => some (.stepMemory 1 Registers.sbc)
  | lax => some (.load fun r value => { r.withA value with x := value })
  | rla => some (.shiftMemory rotateLeft fun r value => r.withA (r.a &&& value))
  | rra => some (.shiftMemory rotateRight Registers.adc)
  | sax => some (.store fun r => r.a &&& r.x)
  | slo => some (.shiftMemory shiftLeft fun r value => r.withA (r.a ||| value))
  | sre => some (.shiftMemory shiftRight fun r value => r.withA (r.a ^^^ value))
  | ahx | jam | las | lxa | shx | shy | tas | xaa => none

end Mnemonic

end Nes.Cpu
