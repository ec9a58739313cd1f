import Nes.Proofs.Ppu.BackgroundPipeline
import Nes.Proofs.Ppu.SpriteMap

/-! The sprite pipeline: how the sprites of a line pass through the latches into the units, and what
the units show over the columns of the line. Time is counted in the dots that have been spent on
setting up the units. -/

namespace Nes.Ppu

open Background (Held)

namespace SpriteRow

variable (row : SpriteRow) (slot : Nat)

/-- The low plane for a unit. Units without a sprite get no pixels. -/
def lowPlane : UInt8 :=
  match row.sprites[slot]? with
  | some sprite => row.memory (sprite.planeAddress row.control row.y)
  | none => 0

def highPlane : UInt8 :=
  match row.sprites[slot]? with
  | some sprite => row.memory (sprite.planeAddress row.control row.y + 8)
  | none => 0

/-- A unit is a number of columns further than it was when it was set up. -/
def Draws (columns : Nat) (unit : SpriteUnit) : Prop :=
  match row.sprites[slot]? with
  | some sprite => unit = (sprite.unit row.memory row.control row.y).after columns
  | none => unit.Blank

/-- A dot moves a unit on by one column of its sprite. -/
theorem Draws.shift {row : SpriteRow} {slot columns : Nat} {unit : SpriteUnit}
    (hDraws : row.Draws slot columns unit) : row.Draws slot (columns + 1) unit.shift := by
  rw [Draws] at hDraws ⊢
  split at hDraws
  · rw [hDraws]
    rfl
  · exact SpriteUnit.blank_after 1 hDraws

end SpriteRow

namespace SpriteUnits

section Fetch

variable (sprites : SpriteUnits) {beam : Beam} (found : LineSprites) (memory : UInt16 → UInt8)
  (address : UInt16)

theorem planes_fetch (hFetches : beam.OnFetchLine ∧ Fetches beam.dot.val) :
    let used := (slot beam.dot.val).val < found.count
    let next := sprites.fetch beam found memory address
    next.lowPlane =
        (if beam.dot.val % 8 = 5 then if used then memory address else 0
        else sprites.lowPlane) ∧
      next.highPlane =
        if beam.dot.val % 8 = 7 then if used then memory (address + 8) else 0
        else sprites.highPlane := by
  intro used next
  simp only [next, used, fetch, if_pos hFetches]
  split
  case h_1 hPhase => simp [hPhase]
  case h_2 hPhase => simp [hPhase]
  case h_3 hPhase => simp [hPhase]
  case h_4 hLow hHigh hLoad =>
    rw [if_neg hLow, if_neg hHigh]
    split <;> exact ⟨rfl, rfl⟩

/-- At the last of its eight dots a unit is set up, and all others keep what they have. -/
theorem units_fetch (hFetches : beam.OnFetchLine ∧ Fetches beam.dot.val) (place : Fin 8) :
    (sprites.fetch beam found memory address).units[place] =
      if beam.dot.val % 8 = 0 ∧ slot beam.dot.val = place then
        .load found.places[place] (decide (place.val < found.count)) sprites.lowPlane
          sprites.highPlane
      else sprites.units[place] := by
  have hUnits : (sprites.fetch beam found memory address).units =
      if beam.dot.val % 8 = 0 then
        sprites.units.set (slot beam.dot.val)
          (.load found.places[slot beam.dot.val] (decide ((slot beam.dot.val).val < found.count))
            sprites.lowPlane sprites.highPlane)
      else sprites.units := by
    rw [fetch, if_pos hFetches]
    simp only
    split
    case h_3 hPhase => rw [if_pos hPhase]
    case h_4 hLow hHigh hLoad =>
      rw [if_neg hLoad]
      split <;> rfl
    all_goals
      rename_i hPhase
      rw [if_neg (show ¬ beam.dot.val % 8 = 0 by omega)]
  by_cases hPhase : beam.dot.val % 8 = 0
  · by_cases hHere : slot beam.dot.val = place
    · subst hHere
      rw [if_pos hPhase] at hUnits
      rw [if_pos ⟨hPhase, rfl⟩]
      simp only [hUnits, Fin.getElem_fin, Vector.getElem_set_self]
    · have hOther : (slot beam.dot.val).val ≠ place.val := fun h => hHere (Fin.ext h)
      rw [if_pos hPhase] at hUnits
      rw [if_neg fun h => hHere h.2]
      simp only [hUnits, Fin.getElem_fin, Vector.getElem_set_ne _ _ hOther]
  · rw [if_neg hPhase] at hUnits
    rw [if_neg fun h => hPhase h.1]
    simp only [hUnits]

/-- The first fetch of a line notes whether it has the first sprite. -/
theorem hasZero_fetch (hFetches : beam.OnFetchLine ∧ Fetches beam.dot.val) :
    (sprites.fetch beam found memory address).hasZero =
      if beam.dot.val = 257 then found.hasZero else sprites.hasZero := by
  rw [fetch, if_pos hFetches]
  simp only
  split
  case h_4 => split <;> rfl
  all_goals
    rename_i hPhase
    rw [if_neg (show ¬ beam.dot.val = 257 by omega)]

end Fetch

/-- What the latches hold after a number of dots has been spent on the units. The address is of use
only to a unit that has a sprite. -/
structure Latched (row : SpriteRow) (dots : Nat) (sprites : SpriteUnits) (address : UInt16) :
    Prop where
  address : ∀ place sprite, row.sprites[place]? = some sprite → 8 * place + 5 ≤ dots →
    dots ≤ 8 * place + 8 → address = sprite.planeAddress row.control row.y
  lowPlane : Held row.lowPlane 5 dots sprites.lowPlane
  highPlane : Held row.highPlane 7 dots sprites.highPlane

theorem latched_zero (row : SpriteRow) (sprites : SpriteUnits) (address : UInt16) :
    Latched row 0 sprites address := by
  constructor
  · intro place sprite hSprite hAfter
    omega
  all_goals
    intro place hAfter
    omega

section Latched

variable {row : SpriteRow} {dots : Nat} {sprites : SpriteUnits} {beam : Beam}
  {found : LineSprites} {zero : Bool} {address : UInt16}

/-- The planes that are read for a unit are those of its sprite. -/
theorem planes_eq {place : Nat} (hHolds : found.Holds row.sprites zero)
    (hAddress : ∀ sprite, row.sprites[place]? = some sprite →
      address = sprite.planeAddress row.control row.y) :
    (if place < found.count then row.memory address else 0) = row.lowPlane place ∧
      (if place < found.count then row.memory (address + 8) else 0) = row.highPlane place := by
  rw [SpriteRow.lowPlane, SpriteRow.highPlane, hHolds.count]
  cases hSprite : row.sprites[place]? with
  | none =>
      have hUnused := List.getElem?_eq_none_iff.mp hSprite
      rw [if_neg (by omega), if_neg (by omega)]
      exact ⟨rfl, rfl⟩
  | some sprite =>
      obtain ⟨hUsed, -⟩ := List.getElem?_eq_some_iff.mp hSprite
      rw [if_pos hUsed, if_pos hUsed, hAddress sprite hSprite]
      exact ⟨rfl, rfl⟩

/-- One more dot: the address is set and the planes are read for one unit after the other. -/
theorem Latched.fetch (hLatched : Latched row dots sprites address)
    (hFetches : beam.OnFetchLine ∧ Fetches beam.dot.val) (hDot : beam.dot.val = 257 + dots)
    (hHolds : found.Holds row.sprites zero)
    (hLine : ∀ sprite ∈ row.sprites, sprite.patternAddress row.control beam.line.val =
      sprite.planeAddress row.control row.y) {next : UInt16}
    (hNext : next =
      if beam.dot.val % 8 = 5 ∧ (slot beam.dot.val).val < found.count then
        found.places[slot beam.dot.val].patternAddress row.control beam.line.val
      else address) :
    Latched row (dots + 1) (sprites.fetch beam found row.memory next) next := by
  have hSlot : (slot beam.dot.val).val = dots / 8 := by
    simp only [slot]
    omega
  have hPhase : beam.dot.val % 8 = (dots + 1) % 8 := by omega
  have hAddress : ∀ place sprite, row.sprites[place]? = some sprite → 8 * place + 5 ≤ dots + 1 →
      dots + 1 ≤ 8 * place + 8 → next = sprite.planeAddress row.control row.y := by
    intro place sprite hSprite hAfter hUntil
    -- The address is set at the fifth dot of a unit and still there when the last plane is read.
    by_cases hHere : dots + 1 = 8 * place + 5
    · have hPlace : (slot beam.dot.val).val = place := by omega
      rw [← hPlace] at hSprite
      have hUsed : (slot beam.dot.val).val < found.count := by
        rw [hHolds.count]
        exact (List.getElem?_eq_some_iff.mp hSprite).1
      rw [hNext, if_pos ⟨by omega, hUsed⟩, hHolds.place hSprite]
      exact hLine sprite (List.mem_of_getElem? hSprite)
    · rw [hNext, if_neg fun h => by omega]
      exact hLatched.address place sprite hSprite (by omega) (by omega)
  obtain ⟨hLow, hHigh⟩ := sprites.planes_fetch found row.memory next hFetches
  constructor
  · exact hAddress
  · rw [hLow]
    refine hLatched.lowPlane.next (by decide) hPhase fun place hPlace => ?_
    rw [show (slot beam.dot.val).val = place by omega]
    exact (planes_eq hHolds fun sprite hSprite =>
      hAddress place sprite hSprite (by omega) (by omega)).1
  · rw [hHigh]
    refine hLatched.highPlane.next (by decide) hPhase fun place hPlace => ?_
    rw [show (slot beam.dot.val).val = place by omega]
    exact (planes_eq hHolds fun sprite hSprite =>
      hAddress place sprite hSprite (by omega) (by omega)).2

/-- At the last of its eight dots a unit is set up for its sprite. -/
theorem Latched.draws_load (hLatched : Latched row dots sprites address)
    (hHolds : found.Holds row.sprites zero) {place : Fin 8} (hDots : dots = 8 * place.val + 7) :
    row.Draws place.val 0 (.load found.places[place] (decide (place.val < found.count))
      sprites.lowPlane sprites.highPlane) := by
  rw [hLatched.lowPlane place.val (by omega) (by omega),
    hLatched.highPlane place.val (by omega) (by omega), SpriteRow.Draws, SpriteRow.lowPlane,
    SpriteRow.highPlane, hHolds.count]
  cases hSprite : row.sprites[place.val]? with
  | none =>
      have hUnused := List.getElem?_eq_none_iff.mp hSprite
      rw [decide_eq_false (by omega)]
      rfl
  | some sprite =>
      obtain ⟨hUsed, -⟩ := List.getElem?_eq_some_iff.mp hSprite
      rw [decide_eq_true hUsed, hHolds.place hSprite]
      rfl

end Latched

section Drawn

variable {row : SpriteRow} {x : Nat} {units : Vector SpriteUnit 8}

/-- In front are the units of the sprites, and behind them only units that show nothing. -/
theorem toList_of_draws (hLength : row.sprites.length ≤ 8)
    (hDraws : ∀ place : Fin 8, row.Draws place.val x units[place]) :
    units.toList.take row.sprites.length =
        row.sprites.map (fun sprite => (sprite.unit row.memory row.control row.y).after x) ∧
      ∀ unit ∈ units.toList.drop row.sprites.length, unit.value = 0 := by
  constructor
  · apply List.ext_getElem
    · rw [List.length_take, Vector.length_toList, List.length_map, Nat.min_eq_left hLength]
    · intro place hTaken hMapped
      rw [List.length_map] at hMapped
      have hUnit := hDraws ⟨place, by omega⟩
      rw [SpriteRow.Draws, List.getElem?_eq_getElem hMapped] at hUnit
      rw [List.getElem_take, List.getElem_map, Vector.getElem_toList]
      exact hUnit
  · intro unit hUnit
    obtain ⟨place, hPlace, rfl⟩ := List.mem_iff_getElem.mp hUnit
    rw [List.length_drop, Vector.length_toList] at hPlace
    have hBlank := hDraws ⟨row.sprites.length + place, by omega⟩
    rw [SpriteRow.Draws, List.getElem?_eq_none (Nat.le_add_right _ _)] at hBlank
    rw [List.getElem_drop, Vector.getElem_toList]
    exact SpriteUnit.value_of_blank hBlank

/-- The first unit that shows anything draws the first sprite with a visible pixel. -/
theorem find_visible (hLength : row.sprites.length ≤ 8)
    (hDraws : ∀ place : Fin 8, row.Draws place.val x units[place]) :
    units.find? SpriteUnit.isVisible =
      (row.top? x).map fun sprite => (sprite.unit row.memory row.control row.y).after x := by
  obtain ⟨hFront, hBehind⟩ := toList_of_draws hLength hDraws
  have hVisible : (SpriteUnit.isVisible ∘ fun sprite : Sprite =>
      (sprite.unit row.memory row.control row.y).after x) =
        fun sprite => sprite.valueAt row.memory row.control x row.y != 0 := by
    funext sprite
    exact SpriteUnit.isVisible_unit sprite row.memory row.control x row.y
  have hNone : (units.toList.drop row.sprites.length).find? SpriteUnit.isVisible = none := by
    rw [List.find?_eq_none]
    intro unit hUnit
    rw [SpriteUnit.isVisible, hBehind unit hUnit]
    exact Bool.false_ne_true
  rw [← Vector.find?_toList, ← List.take_append_drop row.sprites.length units.toList,
    List.find?_append, hFront, List.find?_map, hVisible, hNone, Option.or_none]
  rfl

/-- The pixel of the units is that of the first sprite with a visible pixel. -/
theorem pixel_of_draws (sprites : SpriteUnits) (hLength : row.sprites.length ≤ 8)
    (hDraws : ∀ place : Fin 8, row.Draws place.val x sprites.units[place]) :
    sprites.pixel =
      match row.top? x with
      | some sprite =>
        { palette := sprite.attributes.palette
          value := UInt8.ofNat (sprite.valueAt row.memory row.control x row.y)
          inFront := sprite.attributes.inFront
          ofZero := sprites.hasZero && sprites.units[0].isVisible }
      | none => {} := by
  rw [pixel, find_visible hLength hDraws]
  cases row.top? x with
  | none => rfl
  | some sprite =>
      have hValue := SpriteUnit.value_unit sprite row.memory row.control x row.y
      simp only [Option.map_some, SpriteUnit.attributes_after, ← hValue, UInt8.ofNat_toNat]
      rfl

end Drawn

end SpriteUnits

end Nes.Ppu
