import Nes.Proofs.Ppu.Rendering
import Nes.Proofs.Ppu.SpritePipeline

/-! The sprites of a unit that renders while nobody accesses its registers. Wherever the beam is on
a picture, the units show the sprites that were chosen for its line on the line before. -/

namespace Nes.Ppu

open SpriteUnits (Latched)

namespace Beam

/-- The line for which sprites are chosen on this one. -/
def followingLine (beam : Beam) : Nat :=
  if beam.line.val = preRenderLine then 0 else beam.line.val + 1

/-- The sprites of the following line have been chosen. Before a picture there are none. -/
abbrev SpritesChosen (beam : Beam) : Prop :=
  beam.OnVisibleLine ∧ 66 ≤ beam.dot.val ∨ beam.OnPreRenderLine ∧ 2 ≤ beam.dot.val

/-- The units belong to the fetched line: while that line is drawn, and from the first dot that is
spent on setting them up for it. -/
abbrev SpritesSettled (beam : Beam) : Prop :=
  beam.OnVisibleLine ∧ beam.dot.val ≤ 256 ∨ beam.OnFetchLine ∧ 257 ≤ beam.dot.val

/-- How many units are set up for the fetched line before a dot. -/
def unitsReady (dot : Nat) : Nat :=
  if dot ≤ 256 then 8 else (dot - 257) / 8

/-- How many columns of the fetched line have been drawn before a dot. -/
def columnsDrawn (dot : Nat) : Nat :=
  if dot ≤ 256 then dot - 1 else 0

theorem fetchedLine_eq_following {beam : Beam} (hDot : 257 ≤ beam.dot.val) :
    beam.fetchedLine = beam.followingLine := by
  rw [fetchedLine, if_neg (by omega)]
  rfl

/-- Away from its ends a line is gone through dot by dot. -/
theorem next_of_inside {beam : Beam} {rendering : Bool}
    (hDot : (beam.next rendering).dot.val ≠ 0) :
    (beam.next rendering).line.val = beam.line.val ∧
      (beam.next rendering).dot.val = beam.dot.val + 1 ∧
      (beam.next rendering).followingLine = beam.followingLine := by
  have hNext := beam.next_cases rendering
  have hLine : (beam.next rendering).line.val = beam.line.val := by omega
  refine ⟨hLine, by omega, ?_⟩
  rw [followingLine, hLine]
  rfl

/-- What units that belong to a line do: they rest, they draw it, or they are set up for it. -/
theorem SpritesSettled.phase {beam : Beam} (hSettled : beam.SpritesSettled)
    (hDot : beam.dot.val ≠ 256) :
    (beam.dot.val = 0 ∨ 321 ≤ beam.dot.val) ∨
      (beam.OnVisibleLine ∧ 1 ≤ beam.dot.val ∧ beam.dot.val ≤ 255) ∨
      beam.OnFetchLine ∧ SpriteUnits.Fetches beam.dot.val := by
  simp only [SpritesSettled, OnFetchLine, OnVisibleLine, SpriteUnits.Fetches] at hSettled ⊢
  omega

end Beam

section Tick

variable {ppu : Ppu} (memory : UInt16 → UInt8) (hRendering : ppu.mask.rendering = true)

include hRendering

/-- A dot may choose the sprites of the next line. -/
theorem lineSprites_tick : (ppu.tick memory).lineSprites =
    (ppu.lineSprites.tick ppu.beam ppu.control ppu.oam).1 := by
  rw [tick, if_pos hRendering]
  rfl

/-- A dot fetches for the units, and then they shift. -/
theorem sprites_tick : (ppu.tick memory).sprites =
    (ppu.sprites.fetch ppu.beam ppu.lineSprites memory (ppu.tick memory).patternAddress).shift
      ppu.beam := by
  rw [patternAddress_tick memory hRendering, tick, if_pos hRendering]
  rfl

/-- Between the last unit that is set up and the first pixel of a line the units rest. -/
theorem sprites_tick_of_rest (hRest : ppu.beam.dot.val = 0 ∨ 321 ≤ ppu.beam.dot.val) :
    (ppu.tick memory).sprites = ppu.sprites := by
  rw [sprites_tick memory hRendering, SpriteUnits.fetch, if_neg, SpriteUnits.shift, if_neg]
  · omega
  · simp only [SpriteUnits.Fetches]
    omega

/-- While a line is drawn, all units move on by a column. -/
theorem sprites_tick_of_drawing (hLine : ppu.beam.OnVisibleLine)
    (hDot : 1 ≤ ppu.beam.dot.val ∧ ppu.beam.dot.val ≤ 256) :
    (ppu.tick memory).sprites =
      { ppu.sprites with units := ppu.sprites.units.map SpriteUnit.shift } := by
  have hIdle : ¬ (ppu.beam.OnFetchLine ∧ SpriteUnits.Fetches ppu.beam.dot.val) := by
    simp only [SpriteUnits.Fetches]
    omega
  rw [sprites_tick memory hRendering, SpriteUnits.fetch, if_neg hIdle, SpriteUnits.shift,
    if_pos ⟨.inl hLine, hDot⟩]

/-- While the units are set up, none of them moves. -/
theorem sprites_tick_of_fetches
    (hFetches : ppu.beam.OnFetchLine ∧ SpriteUnits.Fetches ppu.beam.dot.val) :
    (ppu.tick memory).sprites =
      ppu.sprites.fetch ppu.beam ppu.lineSprites memory (ppu.tick memory).patternAddress := by
  rw [sprites_tick memory hRendering, SpriteUnits.shift, if_neg]
  simp only [SpriteUnits.Fetches] at hFetches
  omega

/-- While the units are set up, the pattern address is set for each of them that has a sprite. -/
theorem patternAddress_tick_of_spriteFetches
    (hFetches : ppu.beam.OnFetchLine ∧ SpriteUnits.Fetches ppu.beam.dot.val) :
    (ppu.tick memory).patternAddress =
      if ppu.beam.dot.val % 8 = 5 ∧
          (SpriteUnits.slot ppu.beam.dot.val).val < ppu.lineSprites.count then
        ppu.lineSprites.places[SpriteUnits.slot ppu.beam.dot.val].patternAddress ppu.control
          ppu.beam.line.val
      else ppu.patternAddress := by
  have hIdle : ¬ Background.Fetches ppu.beam.dot.val := by
    simp only [Background.Fetches, SpriteUnits.Fetches] at hFetches ⊢
    omega
  rw [patternAddress_tick memory hRendering, nextPatternAddress]
  by_cases hPhase : ppu.beam.dot.val % 8 = 5
  · rw [if_pos ⟨hFetches.1, hPhase⟩, if_neg hIdle]
    by_cases hUsed : (SpriteUnits.slot ppu.beam.dot.val).val < ppu.lineSprites.count
    · rw [if_pos ⟨hFetches.2, hUsed⟩, if_pos ⟨hPhase, hUsed⟩]
      rfl
    · rw [if_neg fun h => hUsed h.2, if_neg fun h => hUsed h.2]
  · rw [if_neg fun h => hPhase h.2, if_neg fun h => hPhase h.1]

end Tick

/-- The sprites of a line of the screen. -/
def spriteRow (ppu : Ppu) (memory : UInt16 → UInt8) (y : Nat) : SpriteRow where
  memory := memory
  control := ppu.control
  y := y
  sprites := ppu.oam.onLine ppu.control.spriteHeight y

/-- Whether the first sprite in memory has a row on a line of the screen. -/
def zeroOnLine (ppu : Ppu) (y : Nat) : Bool :=
  decide (ppu.oam.first.OnLine ppu.control.spriteHeight y)

/-- The units on their way over a picture: the sprites that were found, the latches and the units
are where the beam needs them. -/
structure SpriteTracks (start : Ppu) (memory : UInt16 → UInt8) (ppu : Ppu) : Prop extends
    Undisturbed start ppu where
  oam : ppu.oam = start.oam
  chosen : ppu.beam.SpritesChosen → ppu.lineSprites.Holds
    (start.spriteRow memory ppu.beam.followingLine).sprites
    (start.zeroOnLine ppu.beam.followingLine)
  latched : ppu.beam.OnFetchLine → 257 ≤ ppu.beam.dot.val → ppu.beam.dot.val ≤ 321 →
    Latched (start.spriteRow memory ppu.beam.followingLine) (ppu.beam.dot.val - 257) ppu.sprites
      ppu.patternAddress
  units : ppu.beam.SpritesSettled → ∀ place : Fin 8,
    place.val < Beam.unitsReady ppu.beam.dot.val →
    (start.spriteRow memory ppu.beam.fetchedLine).Draws place.val
      (Beam.columnsDrawn ppu.beam.dot.val) ppu.sprites.units[place]
  hasZero : ppu.beam.SpritesSettled → ppu.beam.dot.val ≠ 257 →
    ppu.sprites.hasZero = start.zeroOnLine ppu.beam.fetchedLine

/-- Whether the first sprite in memory has a visible pixel at a place of the screen. -/
def zeroVisible (ppu : Ppu) (memory : UInt16 → UInt8) (x y : Nat) : Bool :=
  ppu.zeroOnLine y && ppu.oam.first.valueAt memory ppu.control x y != 0

/-- The pixel that the sprites show at a place of the screen. -/
def spritePixel (ppu : Ppu) (memory : UInt16 → UInt8) (x y : Nat) : SpritePixel :=
  match (ppu.spriteRow memory y).top? x with
  | some sprite =>
    { palette := sprite.attributes.palette
      value := UInt8.ofNat (sprite.valueAt memory ppu.control x y)
      inFront := sprite.attributes.inFront
      ofZero := ppu.zeroVisible memory x y }
  | none => {}

/-- The first line does not have the first sprite. -/
theorem zeroOnLine_zero (ppu : Ppu) : ppu.zeroOnLine 0 = false :=
  decide_eq_false fun h => Nat.not_succ_le_zero _ h.1

/-- At the start of the line before a picture the units do not have to show anything. -/
theorem spriteTracks_of_start {ppu : Ppu} (memory : UInt16 → UInt8)
    (hBeam : ppu.beam.At Beam.preRenderLine 0) : SpriteTracks ppu memory ppu := by
  obtain ⟨hLine, hDot⟩ := hBeam
  rw [Beam.preRenderLine] at hLine
  have hUnsettled : ¬ ppu.beam.SpritesSettled := by
    simp only [Beam.SpritesSettled, Beam.OnVisibleLine]
    omega
  exact
    { control := rfl
      mask := rfl
      palette := rfl
      temporary := rfl
      fineX := rfl
      oam := rfl
      chosen := fun h => absurd h (by
        simp only [Beam.SpritesChosen, Beam.OnVisibleLine]
        omega)
      latched := fun _ h => absurd h (by omega)
      units := fun h => absurd h hUnsettled
      hasZero := fun h => absurd h hUnsettled }

namespace SpriteTracks

variable {start ppu : Ppu} {memory : UInt16 → UInt8}

/-- The sprites of the next line are found on a line of the picture, and none on the line before
it. -/
theorem chosen_tick (hTracks : SpriteTracks start memory ppu)
    (hRendering : ppu.mask.rendering = true) (hChosen : (ppu.tick memory).beam.SpritesChosen) :
    (ppu.tick memory).lineSprites.Holds
      (start.spriteRow memory (ppu.tick memory).beam.followingLine).sprites
      (start.zeroOnLine (ppu.tick memory).beam.followingLine) := by
  have hBeam : (ppu.tick memory).beam = ppu.beam.next true := by rw [beam_tick, hRendering]
  rw [hBeam] at hChosen ⊢
  simp only [Beam.SpritesChosen, Beam.OnVisibleLine, Beam.OnPreRenderLine, Beam.preRenderLine]
    at hChosen
  have hInside : (ppu.beam.next true).dot.val ≠ 0 := by omega
  obtain ⟨hLine, hDot, hFollowing⟩ := Beam.next_of_inside hInside
  rw [hFollowing, lineSprites_tick memory hRendering, LineSprites.tick]
  by_cases hClear : ppu.beam.OnFetchLine ∧ ppu.beam.dot.val = 1
  · have hLast : ppu.beam.line.val = Beam.preRenderLine := by
      rw [Beam.preRenderLine]
      omega
    have hFirst : ppu.beam.followingLine = 0 := if_pos hLast
    have hNone : (start.spriteRow memory 0).sprites = [] :=
      start.oam.onLine_zero start.control.spriteHeight
    rw [if_pos hClear, hFirst, hNone, zeroOnLine_zero]
    exact LineSprites.cleared_holds
  · rw [if_neg hClear]
    by_cases hEvaluate : ppu.beam.OnVisibleLine ∧ ppu.beam.dot.val = 65
    · have hNotLast : ppu.beam.line.val ≠ Beam.preRenderLine := Nat.ne_of_lt (by
        rw [Beam.preRenderLine]
        omega)
      have hAfter : ppu.beam.followingLine = ppu.beam.line.val + 1 := if_neg hNotLast
      rw [if_pos hEvaluate, hAfter, hTracks.oam, hTracks.control]
      exact LineSprites.evaluate_holds _ _ _ _
    · rw [if_neg hEvaluate]
      refine hTracks.chosen ?_
      simp only [Beam.SpritesChosen, Beam.OnFetchLine, Beam.OnVisibleLine, Beam.OnPreRenderLine,
        Beam.preRenderLine] at hClear hEvaluate ⊢
      omega

/-- While the units are set up, their sprites have been chosen, and the rows of the sprites are
those of the following line. -/
theorem found (hTracks : SpriteTracks start memory ppu)
    (hFetches : ppu.beam.OnFetchLine ∧ SpriteUnits.Fetches ppu.beam.dot.val) :
    let row := start.spriteRow memory ppu.beam.followingLine
    ppu.lineSprites.Holds row.sprites (start.zeroOnLine ppu.beam.followingLine) ∧
      ∀ sprite ∈ row.sprites, sprite.patternAddress row.control ppu.beam.line.val =
        sprite.planeAddress row.control row.y := by
  intro row
  constructor
  · refine hTracks.chosen ?_
    simp only [SpriteUnits.Fetches, Beam.SpritesChosen, Beam.OnFetchLine] at hFetches ⊢
    omega
  · intro sprite hSprite
    have hOnLine : sprite.OnLine start.control.spriteHeight ppu.beam.followingLine :=
      Oam.onLine_of_mem _ _ _ hSprite
    have hAfter : ppu.beam.followingLine = ppu.beam.line.val + 1 := by
      rw [Beam.followingLine] at hOnLine ⊢
      split at hOnLine
      · exact absurd hOnLine.1 (Nat.not_succ_le_zero _)
      · rename_i hInside
        rw [if_neg hInside]
    have hAddress := sprite.patternAddress_eq start.control (hAfter ▸ hOnLine)
    rw [← hAfter] at hAddress
    exact hAddress

theorem latched_tick (hTracks : SpriteTracks start memory ppu)
    (hRendering : ppu.mask.rendering = true) (hFetch : (ppu.tick memory).beam.OnFetchLine)
    (hFirst : 257 ≤ (ppu.tick memory).beam.dot.val) (hLast : (ppu.tick memory).beam.dot.val ≤ 321) :
    Latched (start.spriteRow memory (ppu.tick memory).beam.followingLine)
      ((ppu.tick memory).beam.dot.val - 257) (ppu.tick memory).sprites
      (ppu.tick memory).patternAddress := by
  have hBeam : (ppu.tick memory).beam = ppu.beam.next true := by rw [beam_tick, hRendering]
  rw [hBeam] at hFetch hFirst hLast ⊢
  have hInside : (ppu.beam.next true).dot.val ≠ 0 := by omega
  obtain ⟨hLine, hDot, hFollowing⟩ := Beam.next_of_inside hInside
  rw [hFollowing, hDot]
  by_cases hStart : ppu.beam.dot.val = 256
  · rw [hStart]
    exact SpriteUnits.latched_zero _ _ _
  · have hFetches : ppu.beam.OnFetchLine ∧ SpriteUnits.Fetches ppu.beam.dot.val := by
      simp only [SpriteUnits.Fetches, Beam.OnFetchLine, Beam.OnVisibleLine, Beam.OnPreRenderLine,
        hLine] at hFetch ⊢
      omega
    obtain ⟨hFound, hRows⟩ := hTracks.found hFetches
    have hLatched := hTracks.latched hFetches.1 (by omega) (by omega)
    have hAddress := patternAddress_tick_of_spriteFetches memory hRendering hFetches
    rw [hTracks.control] at hAddress
    rw [sprites_tick_of_fetches memory hRendering hFetches,
      show ppu.beam.dot.val + 1 - 257 = ppu.beam.dot.val - 257 + 1 by omega]
    exact hLatched.fetch hFetches (by omega) hFound hRows hAddress

/-- Units that belong to a line do so until it has been drawn. -/
theorem settled_before (hRendering : ppu.mask.rendering = true)
    (hSettled : (ppu.tick memory).beam.SpritesSettled) (hDot : ppu.beam.dot.val ≠ 256) :
    ppu.beam.SpritesSettled ∧ (ppu.tick memory).beam.fetchedLine = ppu.beam.fetchedLine := by
  have hNext := ppu.beam.next_cases true
  have hBeam : (ppu.tick memory).beam = ppu.beam.next true := by rw [beam_tick, hRendering]
  rw [hBeam] at hSettled ⊢
  simp only [Beam.SpritesSettled, Beam.OnFetchLine, Beam.OnVisibleLine, Beam.OnPreRenderLine,
    Beam.preRenderLine] at hSettled ⊢
  exact ⟨by omega, Beam.fetchedLine_next true hDot (by omega)⟩

/-- While a line is drawn, its units move on together. -/
theorem units_tick_of_drawing (hTracks : SpriteTracks start memory ppu)
    (hRendering : ppu.mask.rendering = true) (hLine : ppu.beam.OnVisibleLine)
    (hDot : 1 ≤ ppu.beam.dot.val ∧ ppu.beam.dot.val ≤ 255) (place : Fin 8) :
    (start.spriteRow memory ppu.beam.fetchedLine).Draws place.val ppu.beam.dot.val
      (ppu.tick memory).sprites.units[place] := by
  have hPlace := place.isLt
  have hReady : place.val < Beam.unitsReady ppu.beam.dot.val := by
    rw [Beam.unitsReady, if_pos (by omega)]
    exact hPlace
  have hColumns : Beam.columnsDrawn ppu.beam.dot.val + 1 = ppu.beam.dot.val := by
    rw [Beam.columnsDrawn, if_pos (by omega)]
    omega
  have hUnits := (hTracks.units (.inl ⟨hLine, by omega⟩) place hReady).shift
  rw [hColumns] at hUnits
  rw [sprites_tick_of_drawing memory hRendering hLine (by omega)]
  simp only [Fin.getElem_fin, Vector.getElem_map]
  exact hUnits

/-- While the units are set up, one after the other takes its sprite and none of them moves. -/
theorem units_tick_of_fetches (hTracks : SpriteTracks start memory ppu)
    (hRendering : ppu.mask.rendering = true)
    (hFetches : ppu.beam.OnFetchLine ∧ SpriteUnits.Fetches ppu.beam.dot.val) (place : Fin 8)
    (hReady : 8 * place.val + 8 ≤ ppu.beam.dot.val - 256) :
    (start.spriteRow memory ppu.beam.fetchedLine).Draws place.val 0
      (ppu.tick memory).sprites.units[place] := by
  have hFirst : 257 ≤ ppu.beam.dot.val := hFetches.2.1
  have hLast : ppu.beam.dot.val ≤ 320 := hFetches.2.2
  have hColumns : Beam.columnsDrawn ppu.beam.dot.val = 0 := by
    rw [Beam.columnsDrawn, if_neg (by omega)]
  rw [sprites_tick_of_fetches memory hRendering hFetches,
    SpriteUnits.units_fetch _ _ _ _ hFetches]
  by_cases hHere : ppu.beam.dot.val % 8 = 0 ∧ SpriteUnits.slot ppu.beam.dot.val = place
  · obtain ⟨hFound, -⟩ := hTracks.found hFetches
    have hLatched := hTracks.latched hFetches.1 hFirst (by omega)
    have hSlot : (SpriteUnits.slot ppu.beam.dot.val).val = place.val := by rw [hHere.2]
    have hDots : ppu.beam.dot.val - 257 = 8 * place.val + 7 := by
      simp only [SpriteUnits.slot] at hSlot
      omega
    rw [if_pos hHere, Beam.fetchedLine_eq_following hFirst]
    exact hLatched.draws_load hFound hDots
  · have hStill : place.val < Beam.unitsReady ppu.beam.dot.val := by
      rw [Fin.ext_iff] at hHere
      simp only [SpriteUnits.slot] at hHere
      rw [Beam.unitsReady, if_neg (by omega)]
      omega
    have hUnits := hTracks.units (.inr ⟨hFetches.1, hFirst⟩) place hStill
    rw [hColumns] at hUnits
    rw [if_neg hHere]
    exact hUnits

/-- A dot keeps every unit that is ready at its sprite. -/
theorem units_tick (hTracks : SpriteTracks start memory ppu)
    (hRendering : ppu.mask.rendering = true) (hSettled : (ppu.tick memory).beam.SpritesSettled)
    (place : Fin 8) (hReady : place.val < Beam.unitsReady (ppu.tick memory).beam.dot.val) :
    (start.spriteRow memory (ppu.tick memory).beam.fetchedLine).Draws place.val
      (Beam.columnsDrawn (ppu.tick memory).beam.dot.val)
      (ppu.tick memory).sprites.units[place] := by
  have hNext := ppu.beam.next_cases true
  have hBeam : (ppu.tick memory).beam = ppu.beam.next true := by rw [beam_tick, hRendering]
  have hDotLt := ppu.beam.dot.isLt
  have hPlace := place.isLt
  -- Behind the last pixel of a line no unit is ready for the next one.
  have hNotEnd : ppu.beam.dot.val ≠ 256 := by
    intro hEnd
    rw [hBeam, Beam.unitsReady, show (ppu.beam.next true).dot.val = 257 by omega] at hReady
    exact Nat.not_lt_zero _ hReady
  obtain ⟨hBefore, hSame⟩ := settled_before hRendering hSettled hNotEnd
  rw [hSame]
  rw [hBeam] at hReady ⊢
  rcases hBefore.phase hNotEnd with hRest | ⟨hLine, hDrawing⟩ | hFetches
  · have hColumns : Beam.columnsDrawn (ppu.beam.next true).dot.val =
        Beam.columnsDrawn ppu.beam.dot.val := by
      simp only [Beam.columnsDrawn]
      split <;> split <;> omega
    have hAll : place.val < Beam.unitsReady ppu.beam.dot.val := by
      rw [Beam.unitsReady]
      split <;> omega
    rw [sprites_tick_of_rest memory hRendering hRest, hColumns]
    exact hTracks.units hBefore place hAll
  · have hColumns : Beam.columnsDrawn (ppu.beam.next true).dot.val = ppu.beam.dot.val := by
      rw [Beam.columnsDrawn, if_pos (by omega)]
      omega
    rw [hColumns]
    exact hTracks.units_tick_of_drawing hRendering hLine hDrawing place
  · have hFetching : 257 ≤ ppu.beam.dot.val ∧ ppu.beam.dot.val ≤ 320 := hFetches.2
    have hColumns : Beam.columnsDrawn (ppu.beam.next true).dot.val = 0 := by
      rw [Beam.columnsDrawn, if_neg (by omega)]
    rw [Beam.unitsReady, if_neg (by omega)] at hReady
    rw [hColumns]
    exact hTracks.units_tick_of_fetches hRendering hFetches place (by omega)

/-- It is handed over at the first dot behind a line whether the first sprite in memory was
found. -/
theorem hasZero_tick (hTracks : SpriteTracks start memory ppu)
    (hRendering : ppu.mask.rendering = true) (hSettled : (ppu.tick memory).beam.SpritesSettled)
    (hDot : (ppu.tick memory).beam.dot.val ≠ 257) :
    (ppu.tick memory).sprites.hasZero = start.zeroOnLine (ppu.tick memory).beam.fetchedLine := by
  have hNext := ppu.beam.next_cases true
  have hBeam : (ppu.tick memory).beam = ppu.beam.next true := by rw [beam_tick, hRendering]
  have hNotEnd : ppu.beam.dot.val ≠ 256 := by
    rw [hBeam] at hDot
    omega
  obtain ⟨hBefore, hSame⟩ := settled_before hRendering hSettled hNotEnd
  rw [hSame]
  rcases hBefore.phase hNotEnd with hRest | ⟨hLine, hDrawing⟩ | hFetches
  · rw [sprites_tick_of_rest memory hRendering hRest]
    exact hTracks.hasZero hBefore (by omega)
  · rw [sprites_tick_of_drawing memory hRendering hLine (by omega)]
    exact hTracks.hasZero hBefore (by omega)
  · rw [sprites_tick_of_fetches memory hRendering hFetches,
      SpriteUnits.hasZero_fetch _ _ _ _ hFetches]
    by_cases hFirst : ppu.beam.dot.val = 257
    · rw [if_pos hFirst, Beam.fetchedLine_eq_following hFetches.2.1]
      exact (hTracks.found hFetches).1.hasZero
    · rw [if_neg hFirst]
      exact hTracks.hasZero hBefore hFirst

/-- A dot brings the units on their way over a picture. -/
theorem tick (hTracks : SpriteTracks start memory ppu) (hRendering : start.mask.rendering = true) :
    SpriteTracks start memory (ppu.tick memory) := by
  have hMask : ppu.mask.rendering = true := by rw [hTracks.mask, hRendering]
  exact
    { hTracks.toUndisturbed.tick memory with
      oam := (oam_tick ppu memory).trans hTracks.oam
      chosen := hTracks.chosen_tick hMask
      latched := hTracks.latched_tick hMask
      units := hTracks.units_tick hMask
      hasZero := hTracks.hasZero_tick hMask }

/-- Any number of dots keeps the sprites on their track. -/
theorem run (hTracks : SpriteTracks start memory ppu) (hRendering : start.mask.rendering = true)
    (dots : Nat) : SpriteTracks start memory (ppu.run memory dots) := by
  induction dots generalizing ppu with
  | zero => exact hTracks
  | succ dots ih => exact ih (hTracks.tick hRendering)

/-- Where the first unit belongs to the first sprite in memory, it shows the pixels of that
sprite. -/
theorem zeroVisible_eq {x y : Nat} {unit : SpriteUnit}
    (hDraws : (start.spriteRow memory y).Draws 0 x unit) :
    (start.zeroOnLine y && unit.isVisible) = start.zeroVisible memory x y := by
  rw [zeroVisible]
  by_cases hZero : start.oam.first.OnLine start.control.spriteHeight y
  · obtain ⟨rest, hList⟩ := start.oam.onLine_of_first _ _ hZero
    have hFirst : (start.spriteRow memory y).sprites[0]? = some start.oam.first := by
      rw [spriteRow, hList]
      rfl
    rw [SpriteRow.Draws, hFirst] at hDraws
    have hUnit : unit.isVisible = _ :=
      (congrArg SpriteUnit.isVisible hDraws).trans (SpriteUnit.isVisible_unit _ _ _ _ _)
    rw [hUnit]
    rfl
  · have hNone : start.zeroOnLine y = false := decide_eq_false hZero
    rw [hNone, Bool.false_and, Bool.false_and]

/-- The sprite pixel under the beam is the one of the sprites of its line. -/
theorem pixel (hTracks : SpriteTracks start memory ppu) (onPixel : ppu.beam.OnPixel) :
    ppu.sprites.pixel = start.spritePixel memory ppu.beam.column ppu.beam.line.val := by
  obtain ⟨hLine, hFirst, hLast⟩ := onPixel
  have hSettled : ppu.beam.SpritesSettled := .inl ⟨hLine, hLast⟩
  have hColumn : Beam.columnsDrawn ppu.beam.dot.val = ppu.beam.column := if_pos hLast
  have hReady : Beam.unitsReady ppu.beam.dot.val = 8 := if_pos hLast
  have hDraws (place : Fin 8) : (start.spriteRow memory ppu.beam.line.val).Draws place.val
      ppu.beam.column ppu.sprites.units[place] := by
    have hUnits := hTracks.units hSettled place (by
      rw [hReady]
      exact place.isLt)
    rw [hColumn, Beam.fetchedLine_of_drawing hLast] at hUnits
    exact hUnits
  have hZero := hTracks.hasZero hSettled (by omega)
  rw [Beam.fetchedLine_of_drawing hLast] at hZero
  have hLength : (start.spriteRow memory ppu.beam.line.val).sprites.length ≤ 8 :=
    start.oam.length_onLine _ _
  have hFirstUnit : (start.zeroOnLine ppu.beam.line.val && ppu.sprites.units[0].isVisible) =
      start.zeroVisible memory ppu.beam.column ppu.beam.line.val := zeroVisible_eq (hDraws 0)
  rw [SpriteUnits.pixel_of_draws _ hLength hDraws, hZero, hFirstUnit]
  rfl

end SpriteTracks

end Nes.Ppu
