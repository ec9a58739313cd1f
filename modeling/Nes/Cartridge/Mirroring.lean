/-! The ways in which a cartridge wires the four nametables of the picture unit to memory. -/

namespace Nes

/-- How the four logical nametables share physical ones. The tables are numbered

    0 1
    2 3

from the upper left to the lower right. -/
inductive Mirroring where
  | horizontal
  | vertical
  | singleScreenLower
  | singleScreenUpper
  | fourScreen
  deriving DecidableEq, Repr

namespace Mirroring

def name : Mirroring → String
  | horizontal => "horizontal"
  | vertical => "vertical"
  | singleScreenLower => "single screen (lower)"
  | singleScreenUpper => "single screen (upper)"
  | fourScreen => "four screen"

/-- The physical table behind a logical one. Only the four screen arrangement uses the upper two
physical tables, which are memory on the cartridge. -/
def table (mirroring : Mirroring) (logical : Fin 4) : Fin 4 :=
  match mirroring with
  | horizontal => ⟨logical.val / 2, by omega⟩
  | vertical => ⟨logical.val % 2, by omega⟩
  | singleScreenLower => 0
  | singleScreenUpper => 1
  | fourScreen => logical

end Mirroring

end Nes
