import Nes.Proofs.Ppu.BackgroundPipeline

/-! The background as a map: four nametables side by side, 512 pixels wide and 480 pixels high. Each
pixel of the map has a palette and a value, read from memory without any pipeline. -/

namespace Nes.Ppu

/-- The column of the map that a column of the screen shows. -/
def mapColumn (scroll : Scroll) (x : Nat) : Nat :=
  (256 * scroll.temporary.tableX.toNat + 8 * scroll.temporary.coarseX.val + scroll.fineX.val + x) %
    512

/-- The row of the map that a line of the screen shows. -/
def mapRow (scroll : Scroll) (y : Nat) : Nat :=
  (240 * scroll.temporary.tableY.toNat + 8 * scroll.temporary.coarseY.val +
    scroll.temporary.fineY.val + y) % 480

section Map

variable (memory : UInt16 → UInt8) (control : Control) (column row : Nat)

/-- The nametable that holds a pixel of the map. -/
def mapTable : Nat :=
  2 * (row / 240) + column / 256

/-- The tile of a pixel of the map. -/
def mapTile : UInt8 :=
  memory (UInt16.ofNat (0x2000 + 0x400 * mapTable column row + 32 * (row % 240 / 8) +
    column % 256 / 8))

/-- The palette of a pixel of the map. -/
def mapPalette : Nat :=
  (memory (UInt16.ofNat (0x23c0 + 0x400 * mapTable column row + 8 * (row % 240 / 32) +
    column % 256 / 32))).toNat >>>
      (4 * (row % 240 / 16 % 2) + 2 * (column % 256 / 16 % 2)) % 4

/-- The address of the low bit plane of a pixel of the map. The high one is eight bytes after it. -/
def mapPlane : UInt16 :=
  let table := if control.byte &&& 0x10 = 0 then 0 else 0x1000
  UInt16.ofNat (table + 16 * (mapTile memory column row).toNat + row % 240 % 8)

/-- The value of a pixel of the map. -/
def mapValue : Nat :=
  let bit := 7 - column % 256 % 8
  2 * ((memory (mapPlane memory control column row + 8)).toNat.testBit bit).toNat +
    ((memory (mapPlane memory control column row)).toNat.testBit bit).toNat

/-- One bit chooses the table of the background. -/
theorem Control.toNat_backgroundTable :
    control.backgroundTable.toNat = if control.byte &&& 0x10 = 0 then 0 else 0x1000 := by
  simp only [backgroundTable, bne_iff_ne, ne_eq, ite_not]
  split <;> rfl

/-- There are four palettes for the background. -/
theorem mapPalette_lt : mapPalette memory column row < 4 :=
  Nat.mod_lt _ (by decide)

theorem mapValue_lt : mapValue memory control column row < 4 :=
  ShiftRegister.pixelOf_lt _ _

end Map

namespace ScrollAddress

variable (address : ScrollAddress)

/-- The column on the map has the table and the coarse scroll in it. -/
theorem fields_of_columnNumber : address.tableX.toNat = address.columnNumber / 32 ∧
    address.coarseX.val = address.columnNumber % 32 := by
  have hCoarse := address.coarseX.isLt
  rw [columnNumber]
  omega

/-- The row on the map has the table and both parts of the scroll in it. -/
theorem fields_of_rowNumber (hInside : address.coarseY.val ≤ 29) :
    address.tableY.toNat = address.rowNumber / 240 ∧
      address.coarseY.val = address.rowNumber % 240 / 8 ∧
      address.fineY.val = address.rowNumber % 240 % 8 := by
  have hFine := address.fineY.isLt
  rw [rowNumber]
  omega

end ScrollAddress

/-- The row of tiles that a line of the screen shows. -/
def screenRow (memory : UInt16 → UInt8) (control : Control) (origin : ScrollAddress) (y : Nat) :
    TileRow where
  memory := memory
  control := control
  start := origin.rowsDown y

section

variable (memory : UInt16 → UInt8) (control : Control) {scroll : Scroll}

/-- The position of a tile of a row on the map. -/
theorem position_screenRow (hInside : scroll.temporary.coarseY.val ≤ 29) (x y : Nat) :
    let position := (screenRow memory control scroll.temporary y).position
      ((x + scroll.fineX.val) / 8)
    position.columnNumber = mapColumn scroll x / 8 ∧ position.rowNumber = mapRow scroll y ∧
      position.coarseY.val ≤ 29 := by
  intro position
  let start := scroll.temporary.rowsDown y
  have hRow : ScrollAddress.SameRow position start := ScrollAddress.sameRow_columnsOn _ _
  have hStart := ScrollAddress.rowNumber_rowsDown _ hInside y
  have hColumn := ScrollAddress.sameColumn_rowsDown scroll.temporary y
  refine ⟨?_, ?_, ?_⟩
  · have hNumber : position.columnNumber =
        (start.columnNumber + (x + scroll.fineX.val) / 8) % 64 :=
      ScrollAddress.columnNumber_columnsOn _ _
    have hSame : start.columnNumber = scroll.temporary.columnNumber := by
      rw [ScrollAddress.columnNumber, ScrollAddress.columnNumber, hColumn.table, hColumn.coarse]
    rw [hNumber, hSame, mapColumn, ScrollAddress.columnNumber]
    omega
  · have hSame : position.rowNumber = start.rowNumber := by
      rw [ScrollAddress.rowNumber, ScrollAddress.rowNumber, hRow.table, hRow.coarse, hRow.fine]
    rw [hSame, hStart.2]
    rfl
  · rw [hRow.coarse]
    exact hStart.1

/-- The tiles of a row are those of the map. -/
theorem tile_screenRow (hInside : scroll.temporary.coarseY.val ≤ 29) (x y : Nat) :
    let row := screenRow memory control scroll.temporary y
    let tile := (x + scroll.fineX.val) / 8
    row.tile tile = mapTile memory (mapColumn scroll x) (mapRow scroll y) ∧
      row.address tile = mapPlane memory control (mapColumn scroll x) (mapRow scroll y) ∧
      row.palette tile = mapPalette memory (mapColumn scroll x) (mapRow scroll y) := by
  intro row tile
  obtain ⟨hColumn, hRow, hStill⟩ := position_screenRow memory control hInside x y
  obtain ⟨hTableX, hCoarseX⟩ := (row.position tile).fields_of_columnNumber
  obtain ⟨hTableY, hCoarseY, hFineY⟩ := (row.position tile).fields_of_rowNumber hStill
  rw [hColumn] at hTableX hCoarseX
  rw [hRow] at hTableY hCoarseY hFineY
  have hTable : (row.position tile).nametable =
      mapTable (mapColumn scroll x) (mapRow scroll y) := by
    rw [ScrollAddress.nametable, mapTable, hTableX, hTableY, Nat.div_div_eq_div_mul]
  have hColumnInTable : mapColumn scroll x / 8 % 32 = mapColumn scroll x % 256 / 8 := by omega
  have hTile : row.tile tile = mapTile memory (mapColumn scroll x) (mapRow scroll y) := by
    rw [TileRow.tile, ScrollAddress.tileAddress, mapTile, hTable, hCoarseY, hCoarseX,
      hColumnInTable]
    rfl
  refine ⟨hTile, ?_, ?_⟩
  · rw [TileRow.address, tileRowAddress, mapPlane, hTile, hFineY, Nat.mod_mod,
      ← Control.toNat_backgroundTable]
    rfl
  · have hShift : (row.position tile).attributeShift.toNat % 8 =
        4 * (mapRow scroll y % 240 / 16 % 2) + 2 * (mapColumn scroll x % 256 / 16 % 2) := by
      rw [ScrollAddress.attributeShift, UInt8.toNat_ofNat', hCoarseY, hCoarseX]
      omega
    rw [TileRow.palette, TileRow.attributes, UInt8.toNat_shiftRight, hShift,
      ScrollAddress.attributeAddress, mapPalette, hTable, hCoarseY,
      hCoarseX, hColumnInTable, Nat.div_div_eq_div_mul, Nat.div_div_eq_div_mul]
    rfl

/-- The pixels of a row are those of the map. -/
theorem value_screenRow (hInside : scroll.temporary.coarseY.val ≤ 29) (x y : Nat) :
    (screenRow memory control scroll.temporary y).value (x + scroll.fineX.val) =
      mapValue memory control (mapColumn scroll x) (mapRow scroll y) := by
  obtain ⟨-, hAddress, -⟩ := tile_screenRow memory control hInside x y
  have hBit : (x + scroll.fineX.val) % 8 = mapColumn scroll x % 256 % 8 := by
    rw [mapColumn]
    omega
  rw [TileRow.value, TileRow.planeBit, TileRow.planeBit, TileRow.highPlane, TileRow.lowPlane,
    hAddress, hBit]
  rfl

end

end Nes.Ppu
