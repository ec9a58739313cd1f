import Mathlib.Logic.Function.Iterate
import Nes.Proofs.Ppu.ScrollPath

/-! Scroll positions after any number of steps. Counting rows down and columns on has a closed form:
a remainder for the place inside a nametable, and a quotient for the nametables that were left. -/

namespace Nes.Ppu

namespace ScrollAddress

/-- The row of pixels inside a nametable. The rows from 240 on are those of its attributes. -/
def rowInTable (address : ScrollAddress) : Nat :=
  8 * address.coarseY.val + address.fineY.val

/-- A position was reached by going down alone: it is on the given row of a nametable, and the
vertical half was left the given number of times on the way. -/
structure WentDown (start finish : ScrollAddress) (row crossings : Nat) : Prop where
  row : finish.rowInTable = row
  table : finish.tableY = not^[crossings] start.tableY
  column : SameColumn finish start

/-- A position was reached by going right alone: it is in the given column of a nametable, and the
horizontal half was left the given number of times on the way. -/
structure WentRight (start finish : ScrollAddress) (column crossings : Nat) : Prop where
  column : finish.coarseX.val = column
  table : finish.tableX = not^[crossings] start.tableX
  row : SameRow finish start

theorem SameRow.rowInTable_eq {first second : ScrollAddress} (hSame : SameRow first second) :
    first.rowInTable = second.rowInTable := by
  rw [rowInTable, rowInTable, hSame.coarse, hSame.fine]

section

variable (address : ScrollAddress)

/-- The row inside a table tells the coarse scroll. -/
theorem coarseY_eq_rowInTable : address.coarseY.val = address.rowInTable / 8 := by
  have hFine := address.fineY.isLt
  rw [rowInTable]
  omega

/-- One row down. The last row of tiles leads to the nametable below, and the last row of attributes
to the top of the same nametable. -/
theorem wentDown_nextRow :
    WentDown address address.nextRow
      (if address.rowInTable = 239 ∨ address.rowInTable = 255 then 0 else address.rowInTable + 1)
      (if address.rowInTable = 239 then 1 else 0) := by
  have hCoarse := address.coarseY.isLt
  have hFine := address.fineY.isLt
  have hColumn := sameColumn_nextRow address
  by_cases hLastFine : address.fineY = 7
  · have hFineValue : address.fineY.val = 7 := congrArg Fin.val hLastFine
    by_cases hLast : address.coarseY = 29
    · have hLastValue : address.coarseY.val = 29 := congrArg Fin.val hLast
      have hRow : address.rowInTable = 239 := by
        rw [rowInTable]
        omega
      rw [if_pos (.inl hRow), if_pos hRow]
      rw [nextRow, if_pos hLastFine, if_pos hLast] at hColumn ⊢
      exact ⟨rfl, rfl, hColumn⟩
    · have hNotLast : address.coarseY.val ≠ 29 := fun h => hLast (Fin.ext h)
      have hRow : address.rowInTable = 8 * address.coarseY.val + 7 := by
        rw [rowInTable, hFineValue]
      have hCrossing : address.rowInTable ≠ 239 := by omega
      have hNext : (address.coarseY + 1).val = (address.coarseY.val + 1) % 32 := rfl
      rw [if_neg hCrossing, hRow]
      rw [nextRow, if_pos hLastFine, if_neg hLast] at hColumn ⊢
      refine ⟨?_, rfl, hColumn⟩
      rw [rowInTable, hNext, Fin.val_zero]
      split <;> omega
  · have hNotLast : address.fineY.val ≠ 7 := fun h => hLastFine (Fin.ext h)
    have hNext : (address.fineY + 1).val = address.fineY.val + 1 := by
      rw [Fin.val_add, Fin.val_one]
      omega
    have hRow : address.rowInTable ≠ 239 ∧ address.rowInTable ≠ 255 := by
      rw [rowInTable]
      omega
    rw [if_neg (not_or.mpr hRow), if_neg hRow.1]
    rw [nextRow, if_neg hLastFine] at hColumn ⊢
    refine ⟨?_, rfl, hColumn⟩
    simp only [rowInTable, hNext]
    omega

/-- One column to the right. The last column leads to the nametable beside this one. -/
theorem wentRight_nextColumn :
    WentRight address address.nextColumn ((address.coarseX.val + 1) % 32)
      ((address.coarseX.val + 1) / 32) := by
  have hCoarse := address.coarseX.isLt
  have hRow := sameRow_nextColumn address
  by_cases hLast : address.coarseX = 31
  · have hLastValue : address.coarseX.val = 31 := congrArg Fin.val hLast
    rw [hLastValue]
    rw [nextColumn, if_pos hLast] at hRow ⊢
    exact ⟨rfl, rfl, hRow⟩
  · have hNotLast : address.coarseX.val ≠ 31 := fun h => hLast (Fin.ext h)
    rw [Nat.div_eq_of_lt (by omega)]
    rw [nextColumn, if_neg hLast] at hRow ⊢
    exact ⟨rfl, rfl, hRow⟩

end

namespace WentDown

variable {start middle finish : ScrollAddress} {row crossings nextRow more : Nat}

/-- Rows down in two parts. -/
theorem trans (hFirst : WentDown start middle row crossings)
    (hSecond : WentDown middle finish nextRow more) :
    WentDown start finish nextRow (more + crossings) where
  row := hSecond.row
  table := by rw [hSecond.table, hFirst.table, Function.iterate_add_apply]
  column := hSecond.column.trans hFirst.column

theorem refl (address : ScrollAddress) : WentDown address address address.rowInTable 0 :=
  ⟨rfl, rfl, .refl address⟩

end WentDown

theorem WentRight.trans {start middle finish : ScrollAddress} {column crossings next more : Nat}
    (hFirst : WentRight start middle column crossings)
    (hSecond : WentRight middle finish next more) :
    WentRight start finish next (more + crossings) where
  column := hSecond.column
  table := by rw [hSecond.table, hFirst.table, Function.iterate_add_apply]
  row := hSecond.row.trans hFirst.row

section

variable {address : ScrollAddress}

/-- From a row of tiles, each 240 rows lead through one nametable. -/
theorem wentDown_rowsDown (hTiles : address.coarseY.val ≤ 29) (rows : Nat) :
    WentDown address (address.rowsDown rows) ((address.rowInTable + rows) % 240)
      ((address.rowInTable + rows) / 240) := by
  have hFine := address.fineY.isLt
  have hInside : address.rowInTable < 240 := by
    rw [rowInTable]
    omega
  induction rows with
  | zero =>
      rw [Nat.add_zero, Nat.mod_eq_of_lt hInside, Nat.div_eq_of_lt hInside]
      exact .refl address
  | succ rows ih =>
      -- The quotient grows in the step in which the remainder returns to zero.
      have hRow : (address.rowInTable + (rows + 1)) % 240 =
          if (address.rowInTable + rows) % 240 = 239 ∨ (address.rowInTable + rows) % 240 = 255
          then 0 else (address.rowInTable + rows) % 240 + 1 := by
        split <;> omega
      have hCrossings : (address.rowInTable + (rows + 1)) / 240 =
          (if (address.rowInTable + rows) % 240 = 239 then 1 else 0) +
            (address.rowInTable + rows) / 240 := by
        split <;> omega
      have hNext := ih.trans (address.rowsDown rows).wentDown_nextRow
      rw [ih.row] at hNext
      rw [hRow, hCrossings]
      exact hNext

/-- From a row of attributes, the nametable is counted to its end. -/
theorem wentDown_attributes (hAttributes : 30 ≤ address.coarseY.val) {rows : Nat}
    (hRows : address.rowInTable + rows ≤ 255) :
    WentDown address (address.rowsDown rows) (address.rowInTable + rows) 0 := by
  have hStart : 240 ≤ address.rowInTable := by
    rw [rowInTable]
    omega
  induction rows with
  | zero => exact .refl address
  | succ rows ih =>
      have hSoFar := ih (by omega)
      have hNext := hSoFar.trans (address.rowsDown rows).wentDown_nextRow
      rw [hSoFar.row, if_neg (by omega), if_neg (by omega)] at hNext
      exact hNext

theorem rowsDown_add (first second : Nat) :
    address.rowsDown (first + second) = (address.rowsDown first).rowsDown second := by
  induction second with
  | zero => rfl
  | succ second ih => exact congrArg nextRow ih

/-- Behind the rows of attributes follow the rows of tiles of the same nametable. -/
theorem wentDown_behind_attributes (hAttributes : 30 ≤ address.coarseY.val) (rows : Nat) :
    WentDown address (address.rowsDown (256 - address.rowInTable + rows)) (rows % 240)
      (rows / 240) := by
  have hCoarse := address.coarseY.isLt
  have hFine := address.fineY.isLt
  have hStart : address.rowInTable ≤ 255 := by
    rw [rowInTable]
    omega
  have hLast : WentDown address (address.rowsDown (255 - address.rowInTable))
      (address.rowInTable + (255 - address.rowInTable)) 0 :=
    wentDown_attributes hAttributes (by omega)
  have hTop := hLast.trans (address.rowsDown (255 - address.rowInTable)).wentDown_nextRow
  rw [hLast.row, if_pos (by omega), if_neg (by omega)] at hTop
  have hSteps : 256 - address.rowInTable = 255 - address.rowInTable + 1 := by omega
  rw [rowsDown_add, hSteps]
  have hTiles : (address.rowsDown (255 - address.rowInTable + 1)).coarseY.val ≤ 29 := by
    rw [coarseY_eq_rowInTable, rowsDown, hTop.row]
    decide
  have hRest := wentDown_rowsDown hTiles rows
  rw [rowsDown, hTop.row, Nat.zero_add] at hRest
  exact hTop.trans hRest

/-- Any number of columns to the right, with the crossings into the other table. -/
theorem wentRight_columnsOn (address : ScrollAddress) (columns : Nat) :
    WentRight address (address.columnsOn columns) ((address.coarseX.val + columns) % 32)
      ((address.coarseX.val + columns) / 32) := by
  have hCoarse := address.coarseX.isLt
  induction columns with
  | zero =>
      rw [Nat.add_zero, Nat.mod_eq_of_lt hCoarse, Nat.div_eq_of_lt hCoarse]
      exact ⟨rfl, rfl, .refl address⟩
  | succ columns ih =>
      have hColumn : (address.coarseX.val + (columns + 1)) % 32 =
          ((address.coarseX.val + columns) % 32 + 1) % 32 := by omega
      have hCrossings : (address.coarseX.val + (columns + 1)) / 32 =
          ((address.coarseX.val + columns) % 32 + 1) / 32 +
            (address.coarseX.val + columns) / 32 := by omega
      have hNext := ih.trans (address.columnsOn columns).wentRight_nextColumn
      rw [ih.column] at hNext
      rw [hColumn, hCrossings]
      exact hNext

end

end ScrollAddress

open ScrollAddress

namespace Scroll

variable {scroll : Scroll} {beam : Beam}

/-- At the end of the picture's width, each dot leads one row down. -/
theorem sameRow_iterate_tick (hLine : beam.OnFetchLine) (hDot : beam.dot.val = 256)
    (times : Nat) :
    SameRow ((tick · beam)^[times] scroll).current (scroll.current.rowsDown times) := by
  induction times with
  | zero => exact .refl _
  | succ times ih =>
      rw [Function.iterate_succ_apply', tick, if_pos hLine]
      exact (sameRow_moved_down _ beam hDot).trans ih.nextRow

/-- Behind each tile, the dot leads one column to the right. -/
theorem sameColumn_iterate_tick (hLine : beam.OnFetchLine) (hDot : MovesColumn beam.dot.val)
    (times : Nat) :
    SameColumn ((tick · beam)^[times] scroll).current (scroll.current.columnsOn times) := by
  induction times with
  | zero => exact .refl _
  | succ times ih =>
      rw [Function.iterate_succ_apply', tick, if_pos hLine]
      have hMoved := sameColumn_moved_other ((tick · beam)^[times] scroll) beam (by omega)
      rw [if_pos hDot] at hMoved
      exact hMoved.trans ih.nextColumn

/-- Behind the other tiles of a line, the row stays. -/
theorem sameRow_iterate_tick_rest (hLine : beam.OnFetchLine) (hDot : MovesColumn beam.dot.val)
    (hInside : beam.dot.val ≠ 256) (times : Nat) :
    SameRow ((tick · beam)^[times] scroll).current scroll.current := by
  induction times with
  | zero => exact .refl _
  | succ times ih =>
      rw [Function.iterate_succ_apply', tick, if_pos hLine]
      exact (sameRow_moved_rest _ beam (by omega) hInside).trans ih

end Scroll

/-- Scrolling in closed form. From a row of tiles, a number of rows down leads to the remainder
modulo 240 and leaves the vertical half of the nametables as often as the quotient says. From a row
of attributes, the rows are first counted up to 255, and then on from 0 in the same nametable. A
number of columns to the right leads to the remainder modulo 32 and leaves the horizontal half as
often as the quotient says. The rest of the position stays as it was. Those are the steps of a
rendering unit: of a row at the dot behind the picture's width, and of a column behind each tile. -/
theorem scrolling_closed_form :
    (∀ address : ScrollAddress, address.coarseY.val ≤ 29 → ∀ rows,
      WentDown address (address.rowsDown rows) ((address.rowInTable + rows) % 240)
        ((address.rowInTable + rows) / 240)) ∧
    (∀ address : ScrollAddress, 30 ≤ address.coarseY.val → ∀ rows,
      (address.rowInTable + rows ≤ 255 →
        WentDown address (address.rowsDown rows) (address.rowInTable + rows) 0) ∧
      WentDown address (address.rowsDown (256 - address.rowInTable + rows)) (rows % 240)
        (rows / 240)) ∧
    (∀ (address : ScrollAddress) columns,
      WentRight address (address.columnsOn columns) ((address.coarseX.val + columns) % 32)
        ((address.coarseX.val + columns) / 32)) ∧
    ∀ (scroll : Scroll) (beam : Beam), beam.OnFetchLine → ∀ times,
      let moved := (Scroll.tick · beam)^[times] scroll
      (beam.dot.val = 256 → SameRow moved.current (scroll.current.rowsDown times)) ∧
      (Scroll.MovesColumn beam.dot.val →
        SameColumn moved.current (scroll.current.columnsOn times) ∧
          (beam.dot.val ≠ 256 → SameRow moved.current scroll.current)) := by
  refine ⟨fun address hTiles rows => wentDown_rowsDown hTiles rows,
    fun address hAttributes rows => ⟨wentDown_attributes hAttributes,
      wentDown_behind_attributes hAttributes rows⟩,
    wentRight_columnsOn, fun scroll beam hLine times => ⟨fun hDot => ?_, fun hDot => ?_⟩⟩
  · exact Scroll.sameRow_iterate_tick hLine hDot times
  · exact ⟨Scroll.sameColumn_iterate_tick hLine hDot times,
      fun hInside => Scroll.sameRow_iterate_tick_rest hLine hDot hInside times⟩

/-- The last row and the last column of a nametable. -/
def lastCorner : ScrollAddress :=
  .ofNat 0x73bf

/-- A position on a row of attributes. -/
def onAttributes : ScrollAddress :=
  .ofNat 0x33c0

theorem widthDot_lt : 256 < 341 := by decide

/-- The dot behind the picture's width on the first line. -/
def behindWidth : Beam :=
  { Beam.start with dot := ⟨256, widthDot_lt⟩ }

/-- A column and a row that cross into other tables. -/
theorem scrolling_closed_form_corners :
    let scroll : Scroll := { current := lastCorner }
    WentDown lastCorner (lastCorner.rowsDown 500) 19 3 ∧
    WentDown onAttributes (onAttributes.rowsDown 12) 255 0 ∧
    WentDown onAttributes (onAttributes.rowsDown 313) 60 1 ∧
    WentRight lastCorner (lastCorner.columnsOn 70) 5 3 ∧
    ((Scroll.tick · behindWidth)^[500] scroll).current.rowInTable = 19 ∧
    ((Scroll.tick · behindWidth)^[500] scroll).current.coarseX.val = 19 := by
  intro scroll
  obtain ⟨hTiles, hAttributes, hColumns, hDots⟩ := scrolling_closed_form
  have hDown : WentDown lastCorner (lastCorner.rowsDown 500) 19 3 :=
    hTiles lastCorner (by decide) 500
  obtain ⟨hRow, hColumn⟩ := hDots scroll behindWidth (.inl (by decide)) 500
  refine ⟨hDown, (hAttributes onAttributes (by decide) 12).1 (by decide),
    (hAttributes onAttributes (by decide) 300).2, hColumns lastCorner 70, ?_, ?_⟩
  · exact (hRow rfl).rowInTable_eq.trans hDown.row
  · have hRight : WentRight lastCorner (scroll.current.columnsOn 500) 19 16 :=
      hColumns lastCorner 500
    rw [(hColumn (by decide)).1.coarse, hRight.column]

end Nes.Ppu
