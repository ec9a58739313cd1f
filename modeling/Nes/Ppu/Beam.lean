/-! The position of the picture unit in the raster: 341 dots on each of 262 lines. -/

namespace Nes.Ppu

/-- The dot that is processed next, and how many pictures are complete. -/
structure Beam where
  line : Fin 262 := 0
  dot : Fin 341 := 0
  /-- Whether the current picture is the second of a pair. -/
  oddFrame : Bool := false
  /-- The number of complete pictures. -/
  frames : UInt64 := 0
  deriving DecidableEq, Repr

namespace Beam

def start : Beam := {}

/-- The first line of vertical blanking. -/
def verticalBlankLine : Nat := 241

/-- The last line, which prepares the first one of the next picture. -/
def preRenderLine : Nat := 261

abbrev OnVisibleLine (beam : Beam) : Prop :=
  beam.line.val < 240

/-- The beam is on the line that prepares the next picture. -/
abbrev OnPreRenderLine (beam : Beam) : Prop :=
  beam.line.val = preRenderLine

/-- The beam is on a line on which a rendering unit fetches pictures and moves its address. -/
abbrev OnFetchLine (beam : Beam) : Prop :=
  beam.OnVisibleLine ∨ beam.OnPreRenderLine

/-- The beam is on a pixel of the screen. Dot `x + 1` draws column `x`. -/
abbrev OnPixel (beam : Beam) : Prop :=
  beam.OnVisibleLine ∧ 1 ≤ beam.dot.val ∧ beam.dot.val ≤ 256

abbrev At (beam : Beam) (line dot : Nat) : Prop :=
  beam.line.val = line ∧ beam.dot.val = dot

/-- The column of the pixel that a dot draws. -/
def column (beam : Beam) : Nat :=
  beam.dot.val - 1

/-- A rendering unit leaves out the last dot of every other picture. -/
abbrev SkipsDot (beam : Beam) (rendering : Bool) : Prop :=
  beam.At preRenderLine 339 ∧ beam.oddFrame = true ∧ rendering = true

abbrev EndsLine (beam : Beam) (rendering : Bool) : Prop :=
  beam.dot.val = 340 ∨ beam.SkipsDot rendering

abbrev EndsFrame (beam : Beam) (rendering : Bool) : Prop :=
  beam.line.val = 261 ∧ beam.EndsLine rendering

def next (beam : Beam) (rendering : Bool) : Beam :=
  if beam.EndsLine rendering then
    if beam.line.val = 261 then
      { line := 0, dot := 0, oddFrame := !beam.oddFrame, frames := beam.frames + 1 }
    else
      { beam with line := beam.line + 1, dot := 0 }
  else
    { beam with dot := beam.dot + 1 }

end Beam

end Nes.Ppu
