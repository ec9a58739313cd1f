import Nes.Main
import Nes.Cartridge.InterruptLatch
import Nes.Ppu.Tick
import Nes.Proofs.Console.NmiDelivery
import Nes.Proofs.Ppu.BackgroundMap
import Nes.Proofs.Ppu.ScrollPath
import Nes.Proofs.Ppu.Rendering
import Nes.Proofs.Ppu.Picture
import Nes.Proofs.Ppu.BlankWindow
import Nes.Proofs.Ppu.ScrollWords
import Nes.Proofs.Ppu.Composition
import Nes.Proofs.Ppu.PictureLength
import Nes.Proofs.Console.Completion
import Nes.Proofs.Cartridge.Dump
import Nes.Proofs.Cartridge.ReadBounds
import Nes.Proofs.Bus.MemoryLaw
import Nes.Proofs.Bus.PictureMemory
import Nes.Proofs.Bus.Pads
import Nes.Proofs.Console.Tracing
import Nes.Proofs.Cpu.Timing
import Nes.Proofs.Console.Faults
import Nes.Proofs.Bus.SpriteTransfer
import Nes.Proofs.Console.SpriteTransfer
import Nes.Proofs.Ppu.Cells
import Nes.Proofs.Bus.Cells
import Nes.Proofs.Console.Cells
import Nes.Proofs.Cpu.LongNumber
import Nes.Proofs.Cpu.LongShift
import Nes.Proofs.Cpu.StackFrames
import Nes.Proofs.Console.Masking
import Nes.Proofs.Cpu.EffectiveAddress
import Nes.Proofs.Cpu.CombinedInstructions
import Nes.Proofs.Cpu.Footprint
import Nes.Proofs.Cpu.Stores
import Nes.Proofs.Console.MemoryFootprint
import Nes.Proofs.Ppu.SpriteFlags
import Nes.Proofs.Ppu.SpriteLimit
import Nes.Proofs.Bus.FreshPicture
import Nes.Proofs.Bus.BlockTransfer
import Nes.Proofs.Cli.Grammar
import Nes.Proofs.Cpu.TraceReader
import Nes.Proofs.Console.DoubledProgram
import Nes.Proofs.Ppu.ScrollSteps
