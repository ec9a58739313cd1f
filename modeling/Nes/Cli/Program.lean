import Nes.Cartridge.Load
import Nes.Checksum
import Nes.Cli.Options
import Nes.Console.Run

/-! The program: it loads a cartridge from a file, runs it for a number of pictures, and reports. -/

namespace Nes.Cli

/-- What a run of the program leaves behind. -/
structure Report where
  /-- Whether the program ends with success. -/
  success : Bool
  output : String := ""
  errorOutput : String := ""
  log : Log

namespace Report

def exitCode (report : Report) : Int :=
  if report.success then 0 else -1

/-- A run that ends with a message about what went wrong. -/
def failure (log : Log) (text : String) : Report :=
  { success := false, log := log.add .critical text }

end Report

/-- What the command line leads to. -/
inductive Start where
  /-- There is nothing to run. -/
  | finished (report : Report)
  /-- The file that the options name is needed. -/
  | load (options : Options)

/-- Reads the command line, on which every argument ends at a NUL character. Help is given once all
arguments are found to be in order. -/
def start (log : Log) (arguments : List String) : Start :=
  match Options.parse (arguments.map Terminated.content) with
  | .error error =>
    .finished { Report.failure log error.message with errorOutput := usage ++ "\n" }
  | .ok options =>
    if options.showHelp then .finished { success := true, output := usage ++ "\n", log }
    else .load options

def summary (console : Console Nrom) : String :=
  let checksum := Checksum.ofBytes console.bus.ppu.frame.toArray
  s!"{console.bus.ppu.beam.frames} frames, {console.cpu.cycles} cpu cycles, frame checksum " ++
    String.ofList (Hex.digits Hex.lowerDigit 16 checksum.toNat)

/-- Runs a loaded cartridge. This program has no window of its own, so a number of pictures has to
be given. -/
def runConsole (options : Options) (console : Console Nrom) : Report :=
  match options.headlessFrames with
  | none => .failure console.log "Error: no display available"
  | some frames =>
    match Console.runFrames frames.toNat console with
    | .ok _ console =>
      { success := true, log := console.log.add .info (summary console) }
    | .error fault console => .failure console.log s!"CPU halted: {fault.message}"

/-- Runs the program on the contents of the file that the options name, or on nothing if it cannot
be opened. -/
def runImage (log : Log) (options : Options) (image? : Option (Array UInt8)) : Report :=
  let loading : Loading (Cartridge Nrom) :=
    match image? with
    | none => throw (.unreadable options.romFile)
    | some image => Cartridge.load image
  match (loading.run log : Except LoadError (Cartridge Nrom) × Log) with
  | (.error error, log) => .failure log s!"Error: {error.message}"
  | (.ok cartridge, log) =>
    let unheard := options.trace && !log.keeps .trace
    let log :=
      if unheard then log.add .warn "--trace has no effect unless SPDLOG_LEVEL=trace" else log
    runConsole options { Console.powerOn cartridge with tracing := options.trace, log }

/-- Runs the program where `files` gives the contents of the files that can be opened. -/
def run (files : String → Option (Array UInt8)) (log : Log) (arguments : List String) : Report :=
  match start log arguments with
  | .finished report => report
  | .load options => runImage log options (files options.romFile)

end Nes.Cli
