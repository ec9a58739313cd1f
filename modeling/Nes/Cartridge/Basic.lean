import Nes.Cartridge.Board
import Nes.Cartridge.Header

/-! Cartridges. -/

namespace Nes

/-- A cartridge is a board together with the header that described it. -/
structure Cartridge (β : Type) where
  header : Header := {}
  board : β

end Nes
