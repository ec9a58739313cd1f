import Nes.Text.Decimal
import Nes.Text.Terminated

/-! The options of the program on its command line. -/

namespace Nes.Cli

structure Options where
  romFile : String := "smb.nes"
  trace : Bool := false
  /-- The number of pictures to run without a window. -/
  headlessFrames : Option UInt64 := none
  /-- The size of the window as a multiple of the picture. -/
  scale : Nat := 3
  showHelp : Bool := false
  deriving DecidableEq, Repr

/-- Why a command line is refused. -/
inductive ArgumentError where
  | missingValue (option : String)
  | invalidNumber (option text : String)
  | scaleOutOfRange
  | unknownOption (argument : String)
  | unexpectedArgument (argument : String)
  deriving DecidableEq, Repr

namespace ArgumentError

def reason : ArgumentError → String
  | missingValue option => s!"{option} needs a value"
  | invalidNumber option text => option ++ ": '" ++ text ++ "' is not a valid number"
  | scaleOutOfRange => "--scale must be within 1 and 16"
  | unknownOption argument => s!"unknown option {argument}"
  | unexpectedArgument argument => s!"unexpected argument {argument}"

/-- The text that tells the reason to a user. It ends early if the argument in it has a NUL
character. -/
def message (error : ArgumentError) : String :=
  Terminated.content error.reason

end ArgumentError

def usage : String :=
  "usage: famicom [--trace] [--headless <frames>] [--scale <factor>] [rom file]\n" ++
  "  --trace              log every instruction (with SPDLOG_LEVEL=trace)\n" ++
  "  --headless <frames>  run the given number of frames without a window\n" ++
  "  --scale <factor>     window size as a multiple of 256x240 (default 3)\n" ++
  "log levels are read from the SPDLOG_LEVEL environment variable"

namespace Options

/-- A number of pictures: decimal digits for a number of 64 bits. -/
def frames? (text : String) : Option UInt64 :=
  match Decimal.nat? text.toList with
  | some n => if n < UInt64.size then some (UInt64.ofNat n) else none
  | none => none

/-- A signed number of 32 bits in decimal digits. -/
def int32? (text : String) : Option Int :=
  match Decimal.int? text.toList with
  | some n => if Int32.minValue.toInt ≤ n ∧ n ≤ Int32.maxValue.toInt then some n else none
  | none => none

/-- A window size from 1 to 16. -/
def scaleOf (text : String) : Except ArgumentError Nat :=
  match int32? text with
  | some n => if 1 ≤ n ∧ n ≤ 16 then .ok n.toNat else .error .scaleOutOfRange
  | none => .error (.invalidNumber "--scale" text)

/-- Reads arguments from left to right. `romSeen` tells whether the file with the image was named
already. -/
def parseFrom (options : Options) (romSeen : Bool) : List String → Except ArgumentError Options
  | [] => .ok options
  | "-h" :: rest | "--help" :: rest => parseFrom { options with showHelp := true } romSeen rest
  | "--trace" :: rest => parseFrom { options with trace := true } romSeen rest
  | ["--headless"] => .error (.missingValue "--headless")
  | "--headless" :: text :: rest =>
    match frames? text with
    | some frames => parseFrom { options with headlessFrames := some frames } romSeen rest
    | none => .error (.invalidNumber "--headless" text)
  | ["--scale"] => .error (.missingValue "--scale")
  | "--scale" :: text :: rest =>
    match scaleOf text with
    | .ok scale => parseFrom { options with scale } romSeen rest
    | .error error => .error error
  | argument :: rest =>
    if argument.toList.head? = some '-' then .error (.unknownOption argument)
    else if romSeen then .error (.unexpectedArgument argument)
    else parseFrom { options with romFile := argument } true rest

/-- The options that the arguments after the program's name give. -/
def parse (arguments : List String) : Except ArgumentError Options :=
  parseFrom {} false arguments

end Options

end Nes.Cli
