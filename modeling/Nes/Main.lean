import Nes.Cli.Program

/-! The command line: arguments, the file with the image and the level of messages come in, texts
and the exit code go out. -/

namespace Nes.Cli

/-- The contents of a file, if it can be opened. -/
def readImage (path : String) : IO (Option (Array UInt8)) := do
  try
    let contents ← IO.FS.readBinFile path
    return some contents.data
  catch _ => return none

/-- The least urgent level of messages that are shown, which the environment can choose. -/
def thresholdOf : Option String → Level
  | some "trace" => .trace
  | some "warn" | some "warning" => .warn
  | some "critical" => .critical
  | _ => .info

/-- Prints what a run leaves behind and gives the exit code. -/
def present (report : Report) : IO UInt32 := do
  for record in report.log.records do
    IO.println record.text
  IO.print report.output
  IO.eprint report.errorOutput
  return if report.success then 0 else 255

def runProgram (arguments : List String) : IO UInt32 := do
  let log : Log := { threshold := thresholdOf (← IO.getEnv "SPDLOG_LEVEL") }
  match start log arguments with
  | .finished report => present report
  | .load options => present (runImage log options (← readImage options.romFile))

end Nes.Cli

def main (arguments : List String) : IO UInt32 :=
  Nes.Cli.runProgram arguments
