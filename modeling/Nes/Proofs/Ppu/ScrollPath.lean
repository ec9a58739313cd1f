import Nes.Proofs.Ppu.TilePosition
import Nes.Ppu.Scroll

/-! The path of the scroll position of a rendering unit. Wherever the beam is on a picture, the
position is that of the tile which is fetched there, counted from the upper left corner. -/

namespace Nes.Ppu

open ScrollAddress

namespace Beam

/-- The line for which the background is fetched: this one up to its last pixel, then the next. -/
def fetchedLine (beam : Beam) : Nat :=
  if beam.dot.val ≤ 256 then beam.line.val
  else if beam.line.val = preRenderLine then 0
  else beam.line.val + 1

/-- How many dots have been spent on the background of the fetched line before the given one. Two
tiles are fetched on the line before, and the rest while the line is drawn. -/
def fetchDot (dot : Nat) : Nat :=
  if dot ≤ 256 then max (dot + 15) 16 else min (dot - 321) 16

/-- The row of the scroll position has been settled: always on a picture, and on the line before it
once the first copy is made. -/
abbrev RowSettled (beam : Beam) : Prop :=
  beam.OnVisibleLine ∨ beam.OnPreRenderLine ∧ 281 ≤ beam.dot.val

/-- The column of the scroll position has been settled. Between the end of a line and its return to
the left edge it is of no use. -/
abbrev ColumnSettled (beam : Beam) : Prop :=
  beam.OnVisibleLine ∧ beam.dot.val ≠ 257 ∨ beam.OnPreRenderLine ∧ 258 ≤ beam.dot.val

/-- While a line is drawn, its own tiles are fetched. -/
theorem fetchedLine_of_drawing {beam : Beam} (hDot : beam.dot.val ≤ 256) :
    beam.fetchedLine = beam.line.val :=
  if_pos hDot

/-- Behind a line the tiles of the next one are fetched. -/
theorem fetchedLine_of_ahead {beam : Beam} (hLine : beam.line.val < 261)
    (hDot : 257 ≤ beam.dot.val) : beam.fetchedLine = beam.line.val + 1 := by
  have hNotLast : beam.line.val ≠ preRenderLine := Nat.ne_of_lt hLine
  rw [fetchedLine, if_neg (by omega), if_neg hNotLast]

/-- Before a picture the tiles of its first line are fetched. -/
theorem fetchedLine_of_last {beam : Beam} (hLine : beam.line.val = 261)
    (hDot : 257 ≤ beam.dot.val) : beam.fetchedLine = 0 := by
  have hLast : beam.line.val = preRenderLine := hLine
  rw [fetchedLine, if_neg (by omega), if_pos hLast]

/-- Where a dot leads: to the next picture, the next line or the next dot. -/
theorem next_cases (beam : Beam) (rendering : Bool) :
    (beam.line.val = 261 ∧ 339 ≤ beam.dot.val ∧ (beam.next rendering).line.val = 0 ∧
      (beam.next rendering).dot.val = 0) ∨
    (beam.line.val < 261 ∧ beam.dot.val = 340 ∧
      (beam.next rendering).line.val = beam.line.val + 1 ∧ (beam.next rendering).dot.val = 0) ∨
    (beam.dot.val < 340 ∧ (beam.next rendering).line.val = beam.line.val ∧
      (beam.next rendering).dot.val = beam.dot.val + 1) := by
  have hLine := beam.line.isLt
  have hDot := beam.dot.isLt
  by_cases hEnd : beam.EndsLine rendering
  · by_cases hLast : beam.line.val = 261
    · refine .inl ⟨hLast, ?_, ?_⟩
      · cases hEnd with
        | inl hAtEnd => omega
        | inr hSkip => exact Nat.le_of_eq hSkip.1.2.symm
      · rw [next, if_pos hEnd, if_pos hLast]
        exact ⟨rfl, rfl⟩
    · have hAtEnd : beam.dot.val = 340 := hEnd.resolve_right fun hSkip => hLast hSkip.1.1
      refine .inr (.inl ⟨by omega, hAtEnd, ?_⟩)
      rw [next, if_pos hEnd, if_neg hLast]
      refine ⟨?_, rfl⟩
      simp only [Fin.val_add, Fin.val_one]
      omega
  · have hInside : beam.dot.val ≠ 340 := fun h => hEnd (.inl h)
    refine .inr (.inr ⟨by omega, ?_⟩)
    rw [next, if_neg hEnd]
    refine ⟨rfl, ?_⟩
    simp only [Fin.val_add, Fin.val_one]
    omega

/-- The line changes only after it has been fetched for. -/
theorem fetchedLine_next {beam : Beam} (rendering : Bool)
    (hDot : beam.dot.val ≠ 256) (hLine : beam.line.val < 261 ∨ 257 ≤ beam.dot.val) :
    (beam.next rendering).fetchedLine = beam.fetchedLine := by
  have hDotLt := beam.dot.isLt
  rcases beam.next_cases rendering with ⟨hLast, hEnd, hNextLine, hNextDot⟩ |
    ⟨hLast, hEnd, hNextLine, hNextDot⟩ | ⟨hInside, hNextLine, hNextDot⟩
  · rw [fetchedLine_of_drawing (by omega), fetchedLine_of_last hLast (by omega), hNextLine]
  · rw [fetchedLine_of_drawing (by omega), fetchedLine_of_ahead hLast (by omega), hNextLine]
  · have hDrawing : beam.dot.val + 1 ≤ 256 ↔ beam.dot.val ≤ 256 := by omega
    simp only [fetchedLine, hNextLine, hNextDot, hDrawing]

/-- Away from the end of the picture's width, the fetched tile changes where the scroll position
moves on. -/
theorem fetchDot_next {beam : Beam} (rendering : Bool) (hDot : beam.dot.val ≠ 256) :
    fetchDot (beam.next rendering).dot.val / 8 =
      fetchDot beam.dot.val / 8 + if Scroll.MovesColumn beam.dot.val then 1 else 0 := by
  have hNext := beam.next_cases rendering
  have hDotLt := beam.dot.isLt
  simp only [fetchDot, Scroll.MovesColumn]
  split <;> split <;> split <;> omega

end Beam

namespace Scroll

variable (scroll : Scroll) (beam : Beam)

/-- The row is copied again and again before a picture. -/
theorem sameRow_moved_copied (hLine : beam.line.val = 261) (hFirst : 280 ≤ beam.dot.val)
    (hLast : beam.dot.val ≤ 304) : SameRow (scroll.moved beam) scroll.temporary := by
  rw [moved, if_pos ⟨hLine, hFirst, hLast⟩]
  exact sameRow_withVertical _ _

/-- At the end of a line the position moves down by one row. -/
theorem sameRow_moved_down (hDot : beam.dot.val = 256) :
    SameRow (scroll.moved beam) scroll.current.nextRow := by
  have hMoves : MovesColumn beam.dot.val := by
    rw [hDot]
    decide
  rw [moved, if_neg fun h => absurd (hDot ▸ h.2.1) (by decide), if_pos hMoves, if_pos hDot]
  exact (sameRow_nextColumn _).nextRow

/-- At all other dots the row stays as it is, unless it is set anew. -/
theorem sameRow_moved_rest (hCopy : ¬ (beam.OnPreRenderLine ∧ 280 ≤ beam.dot.val ∧
    beam.dot.val ≤ 304)) (hDot : beam.dot.val ≠ 256) :
    SameRow (scroll.moved beam) scroll.current := by
  have hColumn : SameRow (if MovesColumn beam.dot.val then scroll.current.nextColumn
      else scroll.current) scroll.current := by
    split
    · exact sameRow_nextColumn _
    · exact .refl _
  rw [moved, if_neg hCopy]
  simp only [if_neg hDot]
  split
  · exact (sameRow_withHorizontal _ _).trans hColumn
  · exact hColumn

/-- The column is copied behind the picture's width. -/
theorem sameColumn_moved_copied (hDot : beam.dot.val = 257) :
    SameColumn (scroll.moved beam) scroll.temporary := by
  rw [moved, if_neg fun h => absurd (hDot ▸ h.2.1) (by decide)]
  simp only [if_neg (show beam.dot.val ≠ 256 by omega), if_pos hDot]
  exact sameColumn_withHorizontal _ _

/-- Everywhere but at the copy, the column moves by whole tiles. -/
theorem sameColumn_moved_other (hDot : beam.dot.val ≠ 257) :
    SameColumn (scroll.moved beam) (if MovesColumn beam.dot.val then scroll.current.nextColumn
      else scroll.current) := by
  have hDown (address : ScrollAddress) :
      SameColumn (if beam.dot.val = 256 then address.nextRow else address) address := by
    split
    · exact sameColumn_nextRow _
    · exact .refl _
  simp only [moved, if_neg hDot]
  split
  · exact (sameColumn_withVertical _ _).trans (hDown _)
  · exact hDown _

/-- The scroll position is that of the tile that is fetched, as far as it is settled. -/
structure Follows (origin : ScrollAddress) (beam : Beam) (current : ScrollAddress) : Prop where
  row : beam.RowSettled → SameRow current (origin.rowsDown beam.fetchedLine)
  column : beam.ColumnSettled →
    SameColumn current (origin.columnsOn (Beam.fetchDot beam.dot.val / 8))

/-- At the start of the line before a picture nothing has to be settled. -/
theorem follows_of_start {origin : ScrollAddress} {beam : Beam} {current : ScrollAddress}
    (hBeam : beam.At Beam.preRenderLine 0) : Follows origin beam current := by
  obtain ⟨hLine, hDot⟩ := hBeam
  rw [Beam.preRenderLine] at hLine
  constructor
  · intro hSettled
    simp only [Beam.RowSettled, Beam.OnVisibleLine, Beam.OnPreRenderLine] at hSettled
    omega
  · intro hSettled
    simp only [Beam.ColumnSettled, Beam.OnVisibleLine, Beam.OnPreRenderLine] at hSettled
    omega

/-- A dot keeps the row where the beam will need it. -/
theorem Follows.row_next {scroll : Scroll} {beam : Beam}
    (hFollows : Follows scroll.temporary beam scroll.current) (rendering : Bool)
    (hSettled : (beam.next rendering).RowSettled) :
    SameRow (scroll.moved beam)
      (scroll.temporary.rowsDown (beam.next rendering).fetchedLine) := by
  have hNext := beam.next_cases rendering
  have hRow := hFollows.row
  simp only [Beam.RowSettled, Beam.OnVisibleLine, Beam.OnPreRenderLine, Beam.preRenderLine]
    at hSettled hRow
  by_cases hCopy : beam.line.val = 261 ∧ 280 ≤ beam.dot.val ∧ beam.dot.val ≤ 304
  · rw [Beam.fetchedLine_of_last (by omega) (by omega)]
    exact scroll.sameRow_moved_copied beam hCopy.1 hCopy.2.1 hCopy.2.2
  · have hBefore := hRow (by omega)
    by_cases hEnd : beam.dot.val = 256
    · have hNextLine : (beam.next rendering).line.val = beam.line.val := by omega
      rw [Beam.fetchedLine_of_drawing (by omega)] at hBefore
      rw [Beam.fetchedLine_of_ahead (by omega) (by omega), hNextLine]
      exact (scroll.sameRow_moved_down beam hEnd).trans hBefore.nextRow
    · rw [Beam.fetchedLine_next rendering hEnd (by omega)]
      exact (scroll.sameRow_moved_rest beam hCopy hEnd).trans hBefore

/-- A dot keeps the column where the beam will need it. -/
theorem Follows.column_next {scroll : Scroll} {beam : Beam}
    (hFollows : Follows scroll.temporary beam scroll.current) (rendering : Bool)
    (hSettled : (beam.next rendering).ColumnSettled) :
    SameColumn (scroll.moved beam)
      (scroll.temporary.columnsOn (Beam.fetchDot (beam.next rendering).dot.val / 8)) := by
  have hNext := beam.next_cases rendering
  have hDotLt := beam.dot.isLt
  have hColumn := hFollows.column
  simp only [Beam.ColumnSettled, Beam.OnVisibleLine, Beam.OnPreRenderLine, Beam.preRenderLine]
    at hSettled hColumn
  by_cases hBack : beam.dot.val = 257
  · have hStart : Beam.fetchDot (beam.next rendering).dot.val / 8 = 0 := by
      rw [show (beam.next rendering).dot.val = 258 by omega]
      rfl
    rw [hStart]
    exact scroll.sameColumn_moved_copied beam hBack
  · have hBefore := hColumn (by omega)
    have hMoved := scroll.sameColumn_moved_other beam hBack
    rw [Beam.fetchDot_next rendering (by omega)]
    by_cases hMoves : MovesColumn beam.dot.val
    · rw [if_pos hMoves] at hMoved ⊢
      exact hMoved.trans hBefore.nextColumn
    · rw [if_neg hMoves] at hMoved ⊢
      exact hMoved.trans hBefore

/-- A dot of a rendering unit keeps the scroll position on its path. -/
theorem Follows.tick {scroll : Scroll} {beam : Beam}
    (hFollows : Follows scroll.temporary beam scroll.current) (rendering : Bool) :
    Follows scroll.temporary (beam.next rendering) (scroll.tick beam).current := by
  by_cases hFetch : beam.OnFetchLine
  · rw [Scroll.tick, if_pos hFetch]
    exact ⟨hFollows.row_next rendering, hFollows.column_next rendering⟩
  · -- From the lines between two pictures the beam reaches nothing that is settled.
    have hUnsettled : ¬ (beam.next rendering).OnVisibleLine ∧
        ((beam.next rendering).OnPreRenderLine → (beam.next rendering).dot.val = 0) := by
      simp only [Beam.OnFetchLine, Beam.OnVisibleLine, Beam.OnPreRenderLine, Beam.preRenderLine]
        at hFetch ⊢
      rcases beam.next_cases rendering with hNext | hNext | hNext <;> omega
    constructor
    · intro hSettled
      simp only [Beam.RowSettled] at hSettled
      omega
    · intro hSettled
      simp only [Beam.ColumnSettled] at hSettled
      omega

theorem temporary_tick (scroll : Scroll) (beam : Beam) :
    (scroll.tick beam).temporary = scroll.temporary ∧ (scroll.tick beam).fineX = scroll.fineX := by
  rw [tick]
  split <;> exact ⟨rfl, rfl⟩

end Scroll

end Nes.Ppu
