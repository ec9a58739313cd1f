import Nes.Ppu.Tick
import Nes.Proofs.Ppu.BackgroundMap
import Nes.Proofs.Ppu.ScrollPath

/-! A unit that renders while nobody accesses its registers. Wherever the beam is on a picture, the
background pixel that leaves the pipeline is the one of the map. -/

namespace Nes.Ppu

open Background

section Tick

variable {ppu : Ppu} (memory : UInt16 → UInt8) (hRendering : ppu.mask.rendering = true)

include hRendering

theorem patternAddress_tick : (ppu.tick memory).patternAddress =
    nextPatternAddress ppu.patternAddress ppu.beam ppu.control ppu.scroll
      (ppu.background.reload ppu.beam) ppu.lineSprites := by
  rw [tick, if_pos hRendering]
  rfl

theorem background_tick : (ppu.tick memory).background =
    ((ppu.background.reload ppu.beam).fetch ppu.beam ppu.scroll memory
      (ppu.tick memory).patternAddress).shift ppu.beam := by
  rw [patternAddress_tick memory hRendering, tick, if_pos hRendering]
  rfl

/-- While tiles are fetched, the pattern address is set for each of them. -/
theorem patternAddress_tick_of_fetches
    (hFetches : ppu.beam.OnFetchLine ∧ Fetches ppu.beam.dot.val) :
    (ppu.tick memory).patternAddress =
      if ppu.beam.dot.val % 8 = 5 then
        (ppu.background.reload ppu.beam).patternAddress ppu.control ppu.scroll
      else ppu.patternAddress := by
  rw [patternAddress_tick memory hRendering, nextPatternAddress]
  by_cases hPattern : ppu.beam.dot.val % 8 = 5
  · rw [if_pos ⟨hFetches.1, hPattern⟩, if_pos hFetches.2, if_pos hPattern]
  · rw [if_neg fun h => hPattern h.2, if_neg hPattern]

end Tick

namespace Beam

/-- The background pipeline holds the tiles of the fetched line: while that line is drawn, and from
the first dot that is spent on it. -/
abbrev BackgroundSettled (beam : Beam) : Prop :=
  beam.OnVisibleLine ∧ beam.dot.val ≤ 256 ∨ beam.OnFetchLine ∧ 321 ≤ beam.dot.val

end Beam

namespace Background

variable {row : TileRow} {dots : Nat} {background : Background} {address : UInt16}

/-- Loading a tile leaves the fetches of the next one alone. -/
theorem Fetched.reload (hFetched : Fetched row dots background address) (beam : Beam) :
    Fetched row dots (background.reload beam) address := by
  rw [Background.reload]
  split
  · exact ⟨hFetched.tile, hFetched.attributes, hFetched.address, hFetched.lowPlane,
      hFetched.highPlane⟩
  · exact hFetched

theorem Fetched.shifted (hFetched : Fetched row dots background address) :
    Fetched row dots background.shifted address :=
  ⟨hFetched.tile, hFetched.attributes, hFetched.address, hFetched.lowPlane, hFetched.highPlane⟩

/-- Fetching leaves the tiles that are loaded alone. -/
theorem Loaded.fetch (hLoaded : Loaded row dots background) (beam : Beam) (scroll : Scroll)
    (memory : UInt16 → UInt8) (address : UInt16) :
    Loaded row dots (background.fetch beam scroll memory address) := by
  obtain ⟨hPattern, hPalette, hNext⟩ := registers_fetch background scroll memory address beam
  refine ⟨?_, ?_, ?_, ?_, ?_⟩
  · rw [hPattern]
    exact hLoaded.upper
  · rw [hPattern]
    exact hLoaded.lower
  · rw [hPalette]
    exact hLoaded.paletteUpper
  · rw [hPalette]
    exact hLoaded.paletteLower
  · rw [hNext]
    exact hLoaded.next

/-- One more dot: the registers move on, and take in the tile that this dot has completed. -/
theorem Loaded.advance (hLoaded : Loaded row dots background)
    (hFetched : Fetched row (dots + 1) background address) {beam : Beam}
    (hReloads : beam.OnFetchLine ∧ Reloads beam.dot.val ↔ (dots + 1) % 8 = 0) :
    Loaded row (dots + 1) (background.shifted.reload beam) := by
  by_cases hEnd : (dots + 1) % 8 = 0
  · rw [Background.reload, if_pos (hReloads.mpr hEnd)]
    exact hLoaded.reloaded hEnd (hFetched.highPlane _ (by omega) (by omega))
      (hFetched.lowPlane _ (by omega) (by omega)) (hFetched.attributes _ (by omega) (by omega))
  · rw [Background.reload, if_neg fun h => hEnd (hReloads.mp h)]
    exact hLoaded.shifted hEnd

end Background

/-- What nobody changes while the registers are left alone. -/
structure Undisturbed (start ppu : Ppu) : Prop where
  control : ppu.control = start.control
  mask : ppu.mask = start.mask
  palette : ppu.palette = start.palette
  temporary : ppu.scroll.temporary = start.scroll.temporary
  fineX : ppu.scroll.fineX = start.scroll.fineX

/-- No dot changes what a program has set. -/
theorem Undisturbed.tick {start ppu : Ppu} (hSame : Undisturbed start ppu)
    (memory : UInt16 → UInt8) : Undisturbed start (ppu.tick memory) := by
  obtain ⟨hTemporary, hFineX⟩ := Scroll.temporary_tick ppu.scroll ppu.beam
  refine ⟨?_, ?_, ?_, ?_, ?_⟩
  · rw [control_tick, hSame.control]
  · rw [mask_tick, hSame.mask]
  · rw [palette_tick, hSame.palette]
  · rw [scroll_tick]
    split
    · rw [hTemporary, hSame.temporary]
    · exact hSame.temporary
  · rw [scroll_tick]
    split
    · rw [hFineX, hSame.fineX]
    · exact hSame.fineX

/-- The row of tiles that is fetched under a beam. -/
def fetchedRow (start : Ppu) (memory : UInt16 → UInt8) (beam : Beam) : TileRow :=
  screenRow memory start.control start.scroll.temporary beam.fetchedLine

/-- The background pipeline holds what the dots before have fetched of a row. -/
structure Filled (row : TileRow) (ppu : Ppu) : Prop where
  fetched : Fetched row (Beam.fetchDot ppu.beam.dot.val) ppu.background ppu.patternAddress
  loaded : Loaded row (Beam.fetchDot ppu.beam.dot.val) (ppu.background.reload ppu.beam)

/-- A unit on its way over a picture: the scroll position and the background pipeline are where the
beam needs them. -/
structure Tracks (start : Ppu) (memory : UInt16 → UInt8) (ppu : Ppu) : Prop extends
    Undisturbed start ppu where
  path : Scroll.Follows start.scroll.temporary ppu.beam ppu.scroll.current
  filled : ppu.beam.BackgroundSettled → Filled (fetchedRow start memory ppu.beam) ppu

/-- At the start of the line before a picture the pipeline does not have to hold anything. -/
theorem tracks_of_start {ppu : Ppu} (memory : UInt16 → UInt8)
    (hBeam : ppu.beam.At Beam.preRenderLine 0) : Tracks ppu memory ppu := by
  have hUnsettled : ¬ ppu.beam.BackgroundSettled := by
    simp only [Beam.BackgroundSettled, Beam.OnVisibleLine, Beam.preRenderLine] at hBeam ⊢
    omega
  exact
    { control := rfl
      mask := rfl
      palette := rfl
      temporary := rfl
      fineX := rfl
      path := Scroll.follows_of_start hBeam
      filled := fun h => absurd h hUnsettled }

namespace Tracks

variable {start ppu : Ppu} {memory : UInt16 → UInt8}

/-- Where the pipeline is settled, the scroll position is that of the tile to fetch. -/
theorem current_eq (hTracks : Tracks start memory ppu) (hSettled : ppu.beam.BackgroundSettled) :
    ppu.scroll.current =
      (fetchedRow start memory ppu.beam).position (Beam.fetchDot ppu.beam.dot.val / 8) := by
  have hBoth : ppu.beam.RowSettled ∧ ppu.beam.ColumnSettled := by
    simp only [Beam.BackgroundSettled, Beam.OnFetchLine, Beam.OnVisibleLine, Beam.OnPreRenderLine,
      Beam.RowSettled, Beam.ColumnSettled] at hSettled ⊢
    omega
  have hRow := hTracks.path.row hBoth.1
  have hColumn := hTracks.path.column hBoth.2
  exact ScrollAddress.eq_of_same
    (hRow.trans (ScrollAddress.sameRow_columnsOn _ _).symm)
    (hColumn.trans ((ScrollAddress.sameColumn_rowsDown _ _).columnsOn _).symm)

/-- A line on which the pipeline is settled is fetched for until it has been drawn. -/
theorem fetchedRow_tick (hRendering : ppu.mask.rendering = true)
    (hSettled : ppu.beam.BackgroundSettled) (hDot : ppu.beam.dot.val ≠ 256) :
    fetchedRow start memory (ppu.tick memory).beam = fetchedRow start memory ppu.beam := by
  have hLine : ppu.beam.line.val < 261 ∨ 257 ≤ ppu.beam.dot.val := by
    simp only [Beam.BackgroundSettled, Beam.OnVisibleLine] at hSettled
    omega
  rw [beam_tick, hRendering, fetchedRow, fetchedRow, Beam.fetchedLine_next true hDot hLine]

/-- Between the last tile that is fetched in advance and the first pixel of a line the pipeline
rests. Only the second tile is taken in. -/
theorem rest (hTracks : Tracks start memory ppu) (hRendering : ppu.mask.rendering = true)
    (hSettled : ppu.beam.BackgroundSettled)
    (hRest : ppu.beam.dot.val = 0 ∨ 337 ≤ ppu.beam.dot.val) :
    Filled (fetchedRow start memory (ppu.tick memory).beam) (ppu.tick memory) := by
  have hNext := ppu.beam.next_cases true
  have hBeam : (ppu.tick memory).beam = ppu.beam.next true := by rw [beam_tick, hRendering]
  have hFilled := hTracks.filled hSettled
  have hDots : Beam.fetchDot (ppu.beam.next true).dot.val = Beam.fetchDot ppu.beam.dot.val := by
    have hDotLt := ppu.beam.dot.isLt
    simp only [Beam.fetchDot]
    split <;> split <;> omega
  have hBackground : (ppu.tick memory).background = ppu.background.reload ppu.beam := by
    rw [background_tick memory hRendering, Background.fetch, if_neg, Background.shift, if_neg]
    · omega
    · simp only [Fetches]
      omega
  have hAddress : (ppu.tick memory).patternAddress = ppu.patternAddress := by
    rw [patternAddress_tick memory hRendering, nextPatternAddress, if_neg]
    have hDotLt := ppu.beam.dot.isLt
    omega
  have hQuiet : (ppu.background.reload ppu.beam).reload (ppu.beam.next true) =
      ppu.background.reload ppu.beam := by
    rw [Background.reload, if_neg]
    have hDotLt := ppu.beam.dot.isLt
    simp only [Reloads]
    omega
  rw [fetchedRow_tick hRendering hSettled (by omega)]
  constructor
  · rw [hBeam, hDots, hBackground, hAddress]
    exact hFilled.fetched.reload _
  · rw [hBeam, hDots, hBackground, hQuiet]
    exact hFilled.loaded

/-- While a row is fetched, each dot brings the latches and the registers on by one. -/
theorem advance (hTracks : Tracks start memory ppu) (hRendering : ppu.mask.rendering = true)
    (hFetch : ppu.beam.OnFetchLine) (hSettled : ppu.beam.BackgroundSettled)
    (hDot : 1 ≤ ppu.beam.dot.val ∧ ppu.beam.dot.val ≤ 255 ∨
      321 ≤ ppu.beam.dot.val ∧ ppu.beam.dot.val ≤ 336) :
    Filled (fetchedRow start memory (ppu.tick memory).beam) (ppu.tick memory) := by
  have hNext := ppu.beam.next_cases true
  have hBeam : (ppu.tick memory).beam = ppu.beam.next true := by rw [beam_tick, hRendering]
  have hFilled := hTracks.filled hSettled
  have hPhase : ppu.beam.dot.val % 8 = (Beam.fetchDot ppu.beam.dot.val + 1) % 8 := by
    simp only [Beam.fetchDot]
    split <;> omega
  have hDots : Beam.fetchDot (ppu.beam.next true).dot.val =
      Beam.fetchDot ppu.beam.dot.val + 1 := by
    simp only [Beam.fetchDot]
    split <;> split <;> omega
  have hFetches : ppu.beam.OnFetchLine ∧ Fetches ppu.beam.dot.val := by
    refine ⟨hFetch, ?_⟩
    simp only [Fetches]
    omega
  have hShifts : ppu.beam.OnFetchLine ∧ 1 ≤ ppu.beam.dot.val ∧ ppu.beam.dot.val ≤ 336 :=
    ⟨hFetch, by omega⟩
  have hReloads : (ppu.beam.next true).OnFetchLine ∧ Reloads (ppu.beam.next true).dot.val ↔
      (Beam.fetchDot ppu.beam.dot.val + 1) % 8 = 0 := by
    simp only [Beam.OnFetchLine, Beam.OnVisibleLine, Beam.OnPreRenderLine, Reloads] at hFetch ⊢
    omega
  have hAddress := patternAddress_tick_of_fetches memory hRendering hFetches
  rw [hTracks.control] at hAddress
  have hFetched := (hFilled.fetched.reload ppu.beam).fetch hFetches hPhase
    (hTracks.current_eq hSettled) hAddress
  have hBackground := background_tick memory hRendering
  rw [Background.shift, if_pos hShifts] at hBackground
  rw [fetchedRow_tick hRendering hSettled (by omega)]
  constructor
  · rw [hBeam, hDots, hBackground]
    exact hFetched.shifted
  · rw [hBeam, hDots, hBackground]
    exact (hFilled.loaded.fetch ppu.beam ppu.scroll memory _).advance hFetched hReloads

/-- A dot brings a unit on its way over a picture. -/
theorem tick (hTracks : Tracks start memory ppu) (hRendering : start.mask.rendering = true) :
    Tracks start memory (ppu.tick memory) := by
  have hMask : ppu.mask.rendering = true := by rw [hTracks.mask, hRendering]
  have hBeam : (ppu.tick memory).beam = ppu.beam.next true := by rw [beam_tick, hMask]
  refine { hTracks.toUndisturbed.tick memory with path := ?_, filled := ?_ }
  · have hPath := hTracks.path
    rw [← hTracks.temporary] at hPath
    have hNext := hPath.tick true
    rw [hBeam, scroll_tick, hMask, if_pos rfl, ← hTracks.temporary]
    exact hNext
  · intro hSettled
    have hNext := ppu.beam.next_cases true
    have hDotLt := ppu.beam.dot.isLt
    rw [hBeam] at hSettled
    simp only [Beam.BackgroundSettled, Beam.OnFetchLine, Beam.OnVisibleLine, Beam.OnPreRenderLine,
      Beam.preRenderLine] at hSettled
    by_cases hFirst : ppu.beam.dot.val = 320
    · have hZero : Beam.fetchDot (ppu.tick memory).beam.dot.val = 0 := by
        rw [hBeam, show (ppu.beam.next true).dot.val = 321 by omega]
        rfl
      constructor
      · rw [hZero]
        exact fetched_zero _ _ _
      · rw [hZero]
        exact loaded_zero _ _
    · have hBefore : ppu.beam.BackgroundSettled := by
        simp only [Beam.BackgroundSettled, Beam.OnFetchLine, Beam.OnVisibleLine,
          Beam.OnPreRenderLine, Beam.preRenderLine]
        omega
      by_cases hRest : ppu.beam.dot.val = 0 ∨ 337 ≤ ppu.beam.dot.val
      · exact hTracks.rest hMask hBefore hRest
      · have hFetch : ppu.beam.OnFetchLine := by
          simp only [Beam.OnFetchLine, Beam.OnVisibleLine, Beam.OnPreRenderLine,
            Beam.preRenderLine]
          omega
        exact hTracks.advance hMask hFetch hBefore (by omega)

/-- A run of dots brings a unit on its way over a picture. -/
theorem run (hTracks : Tracks start memory ppu) (hRendering : start.mask.rendering = true)
    (dots : Nat) : Tracks start memory (ppu.run memory dots) := by
  induction dots generalizing ppu with
  | zero => exact hTracks
  | succ dots ih => exact ih (hTracks.tick hRendering)

/-- The background pixel under the beam is the one of the map. -/
theorem pixel (hTracks : Tracks start memory ppu)
    (hInside : start.scroll.temporary.coarseY.val ≤ 29) (onPixel : ppu.beam.OnPixel) :
    let pixel := (ppu.background.reload ppu.beam).pixel ppu.scroll.fineX
    let column := mapColumn start.scroll ppu.beam.column
    let row := mapRow start.scroll ppu.beam.line.val
    pixel.value.toNat = mapValue memory start.control column row ∧
      pixel.palette.toNat = mapPalette memory column row := by
  intro pixel column row
  obtain ⟨hLine, hFirst, hLast⟩ := onPixel
  have hLoaded := (hTracks.filled (.inl ⟨hLine, hLast⟩)).loaded
  have hDots : Beam.fetchDot ppu.beam.dot.val = 16 + ppu.beam.column := by
    rw [Beam.fetchDot, if_pos hLast, Beam.column]
    omega
  rw [hDots, fetchedRow, Beam.fetchedLine_of_drawing hLast] at hLoaded
  have hPixel := hLoaded.pixel ppu.scroll.fineX
  rw [hTracks.fineX] at hPixel
  have hValue := value_screenRow memory start.control hInside ppu.beam.column ppu.beam.line.val
  have hTile := tile_screenRow memory start.control hInside ppu.beam.column ppu.beam.line.val
  have hSame : pixel = (ppu.background.reload ppu.beam).pixel start.scroll.fineX := by
    simp only [pixel, hTracks.fineX]
  rw [hSame]
  exact ⟨hPixel.1.trans hValue, hPixel.2.trans hTile.2.2⟩

end Tracks

end Nes.Ppu
