import Nes.Ppu.ScrollAddress

/-! Scroll positions as places on the map of four nametables, which is 64 tiles wide and 480 rows of
pixels high and repeats in both directions. -/

namespace Nes.Ppu.ScrollAddress

/-- Two positions are on the same row of pixels. -/
structure SameRow (first second : ScrollAddress) : Prop where
  table : first.tableY = second.tableY
  coarse : first.coarseY = second.coarseY
  fine : first.fineY = second.fineY

structure SameColumn (first second : ScrollAddress) : Prop where
  table : first.tableX = second.tableX
  coarse : first.coarseX = second.coarseX

/-- The column of tiles on the map. -/
def columnNumber (address : ScrollAddress) : Nat :=
  32 * address.tableX.toNat + address.coarseX.val

/-- The row of pixels on the map. -/
def rowNumber (address : ScrollAddress) : Nat :=
  240 * address.tableY.toNat + 8 * address.coarseY.val + address.fineY.val

def columnsOn (address : ScrollAddress) : (columns : Nat) → ScrollAddress
  | 0 => address
  | columns + 1 => (address.columnsOn columns).nextColumn

def rowsDown (address : ScrollAddress) : (rows : Nat) → ScrollAddress
  | 0 => address
  | rows + 1 => (address.rowsDown rows).nextRow

namespace SameRow

theorem refl (address : ScrollAddress) : SameRow address address := ⟨rfl, rfl, rfl⟩

variable {first second third : ScrollAddress}

theorem trans (hFirst : SameRow first second) (hSecond : SameRow second third) :
    SameRow first third :=
  ⟨hFirst.table.trans hSecond.table, hFirst.coarse.trans hSecond.coarse,
    hFirst.fine.trans hSecond.fine⟩

theorem symm (hSame : SameRow first second) : SameRow second first :=
  ⟨hSame.table.symm, hSame.coarse.symm, hSame.fine.symm⟩

/-- Positions in one row stay in one row. -/
theorem nextRow (hSame : SameRow first second) : SameRow first.nextRow second.nextRow := by
  simp only [ScrollAddress.nextRow, hSame.fine, hSame.coarse]
  split
  · split
    · exact ⟨congrArg not hSame.table, rfl, rfl⟩
    · exact ⟨hSame.table, rfl, rfl⟩
  · exact ⟨hSame.table, rfl, rfl⟩

end SameRow

namespace SameColumn

theorem refl (address : ScrollAddress) : SameColumn address address := ⟨rfl, rfl⟩

variable {first second third : ScrollAddress}

theorem trans (hFirst : SameColumn first second) (hSecond : SameColumn second third) :
    SameColumn first third :=
  ⟨hFirst.table.trans hSecond.table, hFirst.coarse.trans hSecond.coarse⟩

theorem symm (hSame : SameColumn first second) : SameColumn second first :=
  ⟨hSame.table.symm, hSame.coarse.symm⟩

theorem nextColumn (hSame : SameColumn first second) :
    SameColumn first.nextColumn second.nextColumn := by
  simp only [ScrollAddress.nextColumn, hSame.coarse]
  split
  · exact ⟨congrArg not hSame.table, rfl⟩
  · exact ⟨hSame.table, rfl⟩

theorem columnsOn (hSame : SameColumn first second) (columns : Nat) :
    SameColumn (first.columnsOn columns) (second.columnsOn columns) := by
  induction columns with
  | zero => exact hSame
  | succ columns ih => exact ih.nextColumn

end SameColumn

theorem toNat_not (table : Bool) : (!table).toNat = 1 - table.toNat := by
  cases table <;> rfl

section

variable (address other : ScrollAddress)

theorem sameRow_nextColumn : SameRow address.nextColumn address := by
  rw [nextColumn]
  split <;> exact ⟨rfl, rfl, rfl⟩

theorem sameColumn_nextRow : SameColumn address.nextRow address := by
  rw [nextRow]
  split
  · split <;> exact ⟨rfl, rfl⟩
  · exact ⟨rfl, rfl⟩

theorem sameRow_withHorizontal : SameRow (address.withHorizontal other) address := ⟨rfl, rfl, rfl⟩

theorem sameColumn_withHorizontal : SameColumn (address.withHorizontal other) other := ⟨rfl, rfl⟩

theorem sameRow_withVertical : SameRow (address.withVertical other) other := ⟨rfl, rfl, rfl⟩

theorem sameColumn_withVertical : SameColumn (address.withVertical other) address := ⟨rfl, rfl⟩

/-- The columns of the map follow each other, and wrap around at its end. -/
theorem columnNumber_nextColumn :
    address.nextColumn.columnNumber = (address.columnNumber + 1) % 64 := by
  have hCoarse := address.coarseX.isLt
  have hTable := Bool.toNat_lt address.tableX
  by_cases hLast : address.coarseX = 31
  · have hLastValue : address.coarseX.val = 31 := congrArg Fin.val hLast
    have hOther := toNat_not address.tableX
    rw [nextColumn, if_pos hLast]
    simp only [columnNumber, Fin.val_zero]
    omega
  · have hNotLast : address.coarseX.val ≠ 31 := fun h => hLast (Fin.ext h)
    have hNext : (address.coarseX + 1).val = address.coarseX.val + 1 := by
      rw [Fin.val_add, Fin.val_one]
      omega
    rw [nextColumn, if_neg hLast]
    simp only [columnNumber, hNext]
    omega

theorem columnNumber_lt : address.columnNumber < 64 := by
  have hTable := Bool.toNat_lt address.tableX
  have hCoarse := address.coarseX.isLt
  rw [columnNumber]
  omega

/-- Any number of columns of the map, and around its end. -/
theorem columnNumber_columnsOn (columns : Nat) :
    (address.columnsOn columns).columnNumber = (address.columnNumber + columns) % 64 := by
  induction columns with
  | zero => exact (Nat.mod_eq_of_lt address.columnNumber_lt).symm
  | succ columns ih =>
      rw [columnsOn, columnNumber_nextColumn, ih]
      omega

theorem rowNumber_lt (hInside : address.coarseY.val ≤ 29) : address.rowNumber < 480 := by
  have hFine := address.fineY.isLt
  have hTable := Bool.toNat_lt address.tableY
  rw [rowNumber]
  omega

/-- Counting down from a row of tiles never reaches the attributes. -/
theorem rowNumber_nextRow (hInside : address.coarseY.val ≤ 29) :
    address.nextRow.coarseY.val ≤ 29 ∧
      address.nextRow.rowNumber = (address.rowNumber + 1) % 480 := by
  have hFine := address.fineY.isLt
  have hTable := Bool.toNat_lt address.tableY
  by_cases hLastFine : address.fineY = 7
  · have hFineValue : address.fineY.val = 7 := congrArg Fin.val hLastFine
    by_cases hLast : address.coarseY = 29
    · have hLastValue : address.coarseY.val = 29 := congrArg Fin.val hLast
      have hOther := toNat_not address.tableY
      rw [nextRow, if_pos hLastFine, if_pos hLast]
      simp only [rowNumber, Fin.val_zero]
      omega
    · have hNotLast : address.coarseY.val ≠ 29 := fun h => hLast (Fin.ext h)
      have hNext : (address.coarseY + 1).val = address.coarseY.val + 1 := by
        rw [Fin.val_add, Fin.val_one]
        omega
      rw [nextRow, if_pos hLastFine, if_neg hLast]
      simp only [rowNumber, hNext, Fin.val_zero]
      omega
  · have hNotLast : address.fineY.val ≠ 7 := fun h => hLastFine (Fin.ext h)
    have hNext : (address.fineY + 1).val = address.fineY.val + 1 := by
      rw [Fin.val_add, Fin.val_one]
      omega
    rw [nextRow, if_neg hLastFine]
    simp only [rowNumber, hNext]
    omega

/-- Any number of rows of the map, and around its end. -/
theorem rowNumber_rowsDown (hInside : address.coarseY.val ≤ 29) (rows : Nat) :
    (address.rowsDown rows).coarseY.val ≤ 29 ∧
      (address.rowsDown rows).rowNumber = (address.rowNumber + rows) % 480 := by
  induction rows with
  | zero => exact ⟨hInside, (Nat.mod_eq_of_lt (address.rowNumber_lt hInside)).symm⟩
  | succ rows ih =>
      obtain ⟨hStill, hNext⟩ := rowNumber_nextRow _ ih.1
      refine ⟨hStill, ?_⟩
      rw [rowsDown, hNext, ih.2]
      omega

theorem sameColumn_rowsDown (rows : Nat) : SameColumn (address.rowsDown rows) address := by
  induction rows with
  | zero => exact .refl address
  | succ rows ih => exact (sameColumn_nextRow _).trans ih

theorem sameRow_columnsOn (columns : Nat) : SameRow (address.columnsOn columns) address := by
  induction columns with
  | zero => exact .refl address
  | succ columns ih => exact (sameRow_nextColumn _).trans ih

end

/-- A position is known by its row and its column. -/
theorem eq_of_same {first second : ScrollAddress} (hRow : SameRow first second)
    (hColumn : SameColumn first second) : first = second := by
  obtain ⟨coarseX, coarseY, tableX, tableY, fineY⟩ := first
  obtain ⟨hTableY, hCoarseY, hFineY⟩ := hRow
  obtain ⟨hTableX, hCoarseX⟩ := hColumn
  simp only at hTableY hCoarseY hFineY hTableX hCoarseX
  rw [hTableY, hCoarseY, hFineY, hTableX, hCoarseX]

end Nes.Ppu.ScrollAddress
