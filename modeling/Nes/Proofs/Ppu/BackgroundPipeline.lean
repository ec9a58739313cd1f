import Nes.Ppu.Background
import Nes.Proofs.Ppu.PixelStream
import Nes.Proofs.Ppu.TilePosition

/-! The background pipeline: how the tiles of a row pass through the latches and the shift
registers. The row is taken as a stream of pixels, and time is counted in the dots that have been
spent on it. -/

namespace Nes.Ppu

/-- A row of tiles to fetch: from which memory, with which settings, and beginning where. -/
structure TileRow where
  memory : UInt16 → UInt8
  control : Control
  start : ScrollAddress

namespace TileRow

variable (row : TileRow) (column : Nat)

def position : ScrollAddress :=
  row.start.columnsOn column

def tile : UInt8 :=
  row.memory (row.position column).tileAddress

def attributes : UInt8 :=
  row.memory (row.position column).attributeAddress >>> (row.position column).attributeShift

def address : UInt16 :=
  tileRowAddress row.control.backgroundTable (row.tile column).toNat
    (row.position column).fineY.val

def lowPlane : UInt8 :=
  row.memory (row.address column)

def highPlane : UInt8 :=
  row.memory (row.address column + 8)

def palette : Nat :=
  (row.attributes column).toNat % 4

/-- The pixels of a bit plane, whose bytes are given tile by tile. -/
def planeBit (bytes : Nat → UInt8) (pixel : Nat) : Bool :=
  byteBit (bytes (pixel / 8)) (pixel % 8)

/-- A bit of the palette of a pixel, which is the same for all pixels of a tile. -/
def paletteBit (bit pixel : Nat) : Bool :=
  (row.attributes (pixel / 8)).toNat.testBit bit

/-- The value of a pixel of the row, counted from the left edge of the first tile. -/
def value (pixel : Nat) : Nat :=
  ShiftRegister.pixelOf (planeBit row.highPlane pixel) (planeBit row.lowPlane pixel)

end TileRow

namespace Background

section Fetch

variable (background : Background) {beam : Beam} (scroll : Scroll) (memory : UInt16 → UInt8)
  (address : UInt16)

/-- The tile is fetched at the first of eight dots. -/
theorem tile_fetch (hFetches : beam.OnFetchLine ∧ Fetches beam.dot.val) :
    (background.fetch beam scroll memory address).tile =
      if beam.dot.val % 8 = 1 then memory scroll.current.tileAddress else background.tile := by
  rw [fetch, if_pos hFetches]
  split
  · rename_i hPhase
    rw [if_pos hPhase]
  all_goals
    rename_i hPhase
    rw [if_neg (by omega)]

/-- The attributes are fetched at the third of eight dots. -/
theorem attributes_fetch (hFetches : beam.OnFetchLine ∧ Fetches beam.dot.val) :
    (background.fetch beam scroll memory address).attributes =
      if beam.dot.val % 8 = 3 then
        memory scroll.current.attributeAddress >>> scroll.current.attributeShift
      else background.attributes := by
  rw [fetch, if_pos hFetches]
  split
  case h_2 hPhase => rw [if_pos hPhase]
  all_goals
    rename_i hPhase
    rw [if_neg (by omega)]

/-- The low plane is fetched at the fifth of eight dots. -/
theorem lowPlane_fetch (hFetches : beam.OnFetchLine ∧ Fetches beam.dot.val) :
    (background.fetch beam scroll memory address).lowPlane =
      if beam.dot.val % 8 = 5 then memory address else background.lowPlane := by
  rw [fetch, if_pos hFetches]
  split
  case h_3 hPhase => rw [if_pos hPhase]
  all_goals
    rename_i hPhase
    rw [if_neg (by omega)]

/-- The high plane is fetched at the seventh of eight dots. -/
theorem highPlane_fetch (hFetches : beam.OnFetchLine ∧ Fetches beam.dot.val) :
    (background.fetch beam scroll memory address).highPlane =
      if beam.dot.val % 8 = 7 then memory (address + 8) else background.highPlane := by
  rw [fetch, if_pos hFetches]
  split
  case h_4 hPhase => rw [if_pos hPhase]
  all_goals
    rename_i hPhase
    rw [if_neg (by omega)]

/-- Fetching leaves the pixels alone that wait to be drawn. -/
theorem registers_fetch (beam : Beam) :
    (background.fetch beam scroll memory address).pattern = background.pattern ∧
      (background.fetch beam scroll memory address).palette = background.palette ∧
      (background.fetch beam scroll memory address).nextPalette = background.nextPalette := by
  rw [fetch]
  split
  · split <;> exact ⟨rfl, rfl, rfl⟩
  · exact ⟨rfl, rfl, rfl⟩

end Fetch

/-- From one of the eight dots that are spent on a tile to the last, a latch holds the value that
belongs to the tile. -/
def Held {α : Type} (value : Nat → α) (first dots : Nat) (latch : α) : Prop :=
  ∀ column, 8 * column + first ≤ dots → dots ≤ 8 * column + 8 → latch = value column

/-- One more dot: the latch takes its value for the next tile, or keeps the one it has. -/
theorem Held.next {α : Type} {value : Nat → α} {first dots phase : Nat} {latch new : α}
    (hHeld : Held value first dots latch) (hFirst : 1 ≤ first ∧ first < 8)
    (hPhase : phase = (dots + 1) % 8)
    (hNew : ∀ column, dots + 1 = 8 * column + first → new = value column) :
    Held value first (dots + 1) (if phase = first then new else latch) := by
  intro column hAfter hUntil
  by_cases hHere : dots + 1 = 8 * column + first
  · rw [if_pos (by omega)]
    exact hNew column hHere
  · rw [if_neg (by omega)]
    exact hHeld column (by omega) (by omega)

/-- What the latches hold after a number of dots has been spent on a row. -/
structure Fetched (row : TileRow) (dots : Nat) (background : Background) (address : UInt16) :
    Prop where
  tile : Held row.tile 1 dots background.tile
  attributes : Held row.attributes 3 dots background.attributes
  address : Held row.address 5 dots address
  lowPlane : Held row.lowPlane 5 dots background.lowPlane
  highPlane : Held row.highPlane 7 dots background.highPlane

/-- Before its first dot nothing of a tile is fetched. -/
theorem fetched_zero (row : TileRow) (background : Background) (address : UInt16) :
    Fetched row 0 background address := by
  constructor <;> (intro column hAfter; omega)

/-- One more dot: a byte of the tile is fetched every other dot. -/
theorem Fetched.fetch {row : TileRow} {dots : Nat} {background : Background} {address : UInt16}
    (hFetched : Fetched row dots background address) {beam : Beam} {scroll : Scroll}
    (hFetches : beam.OnFetchLine ∧ Fetches beam.dot.val)
    (hPhase : beam.dot.val % 8 = (dots + 1) % 8)
    (hCurrent : scroll.current = row.position (dots / 8)) {next : UInt16}
    (hNext : next = if beam.dot.val % 8 = 5 then background.patternAddress row.control scroll
      else address) :
    Fetched row (dots + 1) (background.fetch beam scroll row.memory next) next := by
  have hHere (column : Nat) (hColumn : dots / 8 = column) : scroll.current = row.position column :=
    hColumn ▸ hCurrent
  have hAddress : Held row.address 5 (dots + 1) next := by
    rw [hNext]
    refine hFetched.address.next (by decide) hPhase fun column hColumn => ?_
    rw [patternAddress, hHere column (by omega), hFetched.tile column (by omega) (by omega)]
    rfl
  constructor
  · rw [tile_fetch _ _ _ _ hFetches]
    refine hFetched.tile.next (by decide) hPhase fun column hColumn => ?_
    rw [hHere column (by omega)]
    rfl
  · rw [attributes_fetch _ _ _ _ hFetches]
    refine hFetched.attributes.next (by decide) hPhase fun column hColumn => ?_
    rw [hHere column (by omega)]
    rfl
  · exact hAddress
  · rw [lowPlane_fetch _ _ _ _ hFetches]
    refine hFetched.lowPlane.next (by decide) hPhase fun column hColumn => ?_
    rw [hAddress column (by omega) (by omega)]
    rfl
  · rw [highPlane_fetch _ _ _ _ hFetches]
    refine hFetched.highPlane.next (by decide) hPhase fun column hColumn => ?_
    rw [hAddress column (by omega) (by omega)]
    rfl

/-- The registers one pixel further. -/
def shifted (background : Background) : Background :=
  { background with
    pattern := background.pattern.shift 0
    palette := background.palette.shift background.nextPalette }

/-- The registers with the tile from the latches. -/
def reloaded (background : Background) : Background :=
  { background with
    pattern := background.pattern.reload background.highPlane background.lowPlane
    nextPalette := background.attributes &&& 0x03 }

/-- The columns of a register, up to a width, show a stream of pixels. The pixel that leaves next is
the one sixteen dots back, because a tile waits for the one before it. -/
def Shows (dots width : Nat) (stream bits : Nat → Bool) : Prop :=
  ∀ column < width, ∀ pixel, pixel + 16 = dots + column → bits column = stream pixel

namespace Shows

variable {dots width : Nat} {stream bits : Nat → Bool}

theorem zero (hWidth : width ≤ 16) : Shows 0 width stream bits := by
  intro column hColumn pixel hPixel
  omega

/-- One pixel further, every column shows what the next one showed before. -/
theorem shift {next : Nat → Bool} (hShows : Shows dots (width + 1) stream bits)
    (hNext : ∀ column < width, next column = bits (column + 1)) :
    Shows (dots + 1) width stream next := by
  intro column hColumn pixel hPixel
  rw [hNext column hColumn]
  exact hShows (column + 1) (by omega) pixel (by omega)

/-- Columns at the right take in more of the stream. -/
theorem extend {wider : Nat} (hShows : Shows dots width stream bits)
    (hRight : ∀ column, width ≤ column → column < wider → ∀ pixel, pixel + 16 = dots + column →
      bits column = stream pixel) : Shows dots wider stream bits := by
  intro column hColumn pixel hPixel
  by_cases hLeft : column < width
  · exact hShows column hLeft pixel hPixel
  · exact hRight column (by omega) hColumn pixel hPixel

/-- Inside a tile a bit plane moves on. -/
theorem plane_shifted {bytes : Nat → UInt8} {plane : UInt16}
    (hShows : Shows dots (16 - dots % 8) (TileRow.planeBit bytes) (wordBit plane))
    {wider : Nat} (hWidth : wider + 1 = 16 - dots % 8) :
    Shows (dots + 1) wider (TileRow.planeBit bytes) (wordBit (Plane.shiftIn plane 0)) := by
  rw [← hWidth] at hShows
  refine hShows.shift fun column hColumn => ?_
  rw [wordBit_shiftIn plane 0 (by omega), if_neg (by omega)]

/-- At the end of a tile a bit plane takes it in at the right. -/
theorem plane_reloaded {bytes : Nat → UInt8} {plane : UInt16} {byte : UInt8}
    (hShows : Shows dots (16 - dots % 8) (TileRow.planeBit bytes) (wordBit plane))
    (hEnd : (dots + 1) % 8 = 0) (hByte : byte = bytes (dots / 8)) :
    Shows (dots + 1) 16 (TileRow.planeBit bytes)
      (wordBit (Plane.reload (Plane.shiftIn plane 0) byte)) := by
  have hShifted : Shows (dots + 1) 8 (TileRow.planeBit bytes) (wordBit (Plane.shiftIn plane 0)) :=
    hShows.plane_shifted (by omega)
  have hLeft : Shows (dots + 1) 8 (TileRow.planeBit bytes)
      (wordBit (Plane.reload (Plane.shiftIn plane 0) byte)) := by
    intro column hColumn pixel hPixel
    rw [wordBit_reload _ _ (by omega), if_pos hColumn]
    exact hShifted column hColumn pixel hPixel
  refine hLeft.extend fun column hRight hColumn pixel hPixel => ?_
  have hTile : pixel / 8 = dots / 8 := by omega
  rw [wordBit_reload _ _ hColumn, if_neg (by omega), TileRow.planeBit, hTile, hByte,
    show pixel % 8 = column - 8 by omega]

/-- A register of palettes takes in its bit for the tile before this one. -/
theorem palette_shifted {row : TileRow} {number : Nat} {plane bit : UInt8}
    (hShows : Shows dots 8 (row.paletteBit number) (byteBit plane))
    (hBit : 8 ≤ dots →
      bit.toNat.testBit 0 = (row.attributes (dots / 8 - 1)).toNat.testBit number) :
    Shows (dots + 1) 8 (row.paletteBit number) (byteBit (Plane.shiftIn plane bit)) := by
  have hLeft : Shows (dots + 1) 7 (row.paletteBit number) (byteBit (Plane.shiftIn plane bit)) := by
    refine hShows.shift fun column hColumn => ?_
    rw [byteBit_shiftIn plane bit (by omega), if_neg (by omega)]
  refine hLeft.extend fun column hRight hColumn pixel hPixel => ?_
  have hTile : pixel / 8 = dots / 8 - 1 := by omega
  rw [byteBit_shiftIn plane bit hColumn, if_pos (by omega), hBit (by omega), TileRow.paletteBit,
    hTile]

end Shows

/-- What the shift registers hold after a number of dots, once a complete tile has been loaded. -/
structure Loaded (row : TileRow) (dots : Nat) (background : Background) : Prop where
  upper : Shows dots (16 - dots % 8) (TileRow.planeBit row.highPlane)
    (wordBit background.pattern.upper)
  lower : Shows dots (16 - dots % 8) (TileRow.planeBit row.lowPlane)
    (wordBit background.pattern.lower)
  paletteUpper : Shows dots 8 (row.paletteBit 1) (byteBit background.palette.upper)
  paletteLower : Shows dots 8 (row.paletteBit 0) (byteBit background.palette.lower)
  next : 8 ≤ dots → background.nextPalette = row.attributes (dots / 8 - 1) &&& 0x03

theorem loaded_zero (row : TileRow) (background : Background) : Loaded row 0 background := by
  exact ⟨.zero (by decide), .zero (by decide), .zero (by decide), .zero (by decide),
    fun hSome => absurd hSome (by decide)⟩

/-- The bits of a palette that enter the registers one by one. -/
theorem testBit_palette (attributes : UInt8) :
    ((attributes &&& 0x03) >>> 1).toNat.testBit 0 = attributes.toNat.testBit 1 ∧
      (attributes &&& 0x03).toNat.testBit 0 = attributes.toNat.testBit 0 := by
  have hMask : (0x03 : UInt8).toNat = 3 := rfl
  have hOne : (1 : UInt8).toNat % 8 = 1 := rfl
  have hFirst : (3 : Nat).testBit 0 = true := rfl
  have hSecond : (3 : Nat).testBit (1 + 0) = true := rfl
  rw [UInt8.toNat_shiftRight, UInt8.toNat_and, hMask, hOne, Nat.testBit_shiftRight,
    Nat.testBit_and, Nat.testBit_and, hFirst, hSecond, Bool.and_true, Bool.and_true]
  exact ⟨rfl, rfl⟩

section Shift

variable {row : TileRow} {dots : Nat} {background : Background}

/-- A shifted palette register shows its tiles one column further on. -/
theorem Loaded.palette_shifted (hLoaded : Loaded row dots background) :
    Shows (dots + 1) 8 (row.paletteBit 1) (byteBit background.shifted.palette.upper) ∧
      Shows (dots + 1) 8 (row.paletteBit 0) (byteBit background.shifted.palette.lower) := by
  obtain ⟨hHigh, hLow⟩ := testBit_palette (row.attributes (dots / 8 - 1))
  constructor
  · refine hLoaded.paletteUpper.palette_shifted fun hSome => ?_
    rw [hLoaded.next hSome, hHigh]
  · refine hLoaded.paletteLower.palette_shifted fun hSome => ?_
    rw [hLoaded.next hSome, hLow]

/-- Inside a tile the registers move on. -/
theorem Loaded.shifted (hLoaded : Loaded row dots background) (hInside : (dots + 1) % 8 ≠ 0) :
    Loaded row (dots + 1) background.shifted := by
  obtain ⟨hPaletteUpper, hPaletteLower⟩ := hLoaded.palette_shifted
  have hWidth : 16 - (dots + 1) % 8 + 1 = 16 - dots % 8 := by omega
  have hTile : (dots + 1) / 8 = dots / 8 := by omega
  refine ⟨hLoaded.upper.plane_shifted hWidth, hLoaded.lower.plane_shifted hWidth, hPaletteUpper,
    hPaletteLower, ?_⟩
  intro hSome
  rw [hTile]
  exact hLoaded.next (by omega)

/-- At the end of a tile the registers move on and take it in at the right. -/
theorem Loaded.reloaded (hLoaded : Loaded row dots background) (hEnd : (dots + 1) % 8 = 0)
    (hHigh : background.highPlane = row.highPlane (dots / 8))
    (hLow : background.lowPlane = row.lowPlane (dots / 8))
    (hAttributes : background.attributes = row.attributes (dots / 8)) :
    Loaded row (dots + 1) background.shifted.reloaded := by
  obtain ⟨hPaletteUpper, hPaletteLower⟩ := hLoaded.palette_shifted
  have hWidth : 16 - (dots + 1) % 8 = 16 := by omega
  refine ⟨?_, ?_, hPaletteUpper, hPaletteLower, ?_⟩
  · rw [hWidth]
    exact hLoaded.upper.plane_reloaded hEnd hHigh
  · rw [hWidth]
    exact hLoaded.lower.plane_reloaded hEnd hLow
  · intro _
    rw [show (dots + 1) / 8 - 1 = dots / 8 by omega, ← hAttributes]
    rfl

/-- While a line is drawn, the fine scroll picks the pixel of the row that belongs to the column of
the screen. -/
theorem Loaded.pixel {column : Nat} (hLoaded : Loaded row (16 + column) background)
    (fineX : Fin 8) :
    (background.pixel fineX).value.toNat = row.value (column + fineX.val) ∧
      (background.pixel fineX).palette.toNat = row.palette ((column + fineX.val) / 8) := by
  have hFine := fineX.isLt
  constructor
  · refine (ShiftRegister.toNat_pixel _ _).trans ?_
    rw [byteBit_front_word _ hFine, byteBit_front_word _ hFine,
      hLoaded.upper fineX.val (by omega) (column + fineX.val) (by omega),
      hLoaded.lower fineX.val (by omega) (column + fineX.val) (by omega)]
    rfl
  · refine (ShiftRegister.toNat_pixel _ _).trans ?_
    have hUpper := hLoaded.paletteUpper fineX.val hFine (column + fineX.val) (by omega)
    have hLower := hLoaded.paletteLower fineX.val hFine (column + fineX.val) (by omega)
    rw [show byteBit (Plane.front background.palette.upper) fineX.val = _ from hUpper,
      show byteBit (Plane.front background.palette.lower) fineX.val = _ from hLower,
      TileRow.palette]
    have hBits (n : Nat) : ShiftRegister.pixelOf (n.testBit 1) (n.testBit 0) = n % 4 := by
      rw [ShiftRegister.pixelOf, Nat.toNat_testBit, Nat.toNat_testBit]
      omega
    exact hBits _

end Shift

end Background

end Nes.Ppu
