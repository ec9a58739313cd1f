import Nes.Ppu.SpriteEvaluation

/-! The choice of sprites as a list. On each line the first eight sprites in memory are shown that
have a row there, and going through the memory finds exactly these. -/

namespace Nes.Ppu

/-- A sprite of the given height has a row on a line. Its first row is on the line after `y`. -/
abbrev Sprite.OnLine (sprite : Sprite) (height y : Nat) : Prop :=
  sprite.y.toNat + 1 ≤ y ∧ y < sprite.y.toNat + 1 + height

theorem Oam.firstNumber_lt : 0 < 64 := by decide

/-- The first sprite in memory. -/
def Oam.first (oam : Oam) : Sprite :=
  oam.sprite ⟨0, firstNumber_lt⟩

/-- The first eight sprites in memory that have a row on a line. -/
def Oam.onLine (oam : Oam) (height y : Nat) : List Sprite :=
  (oam.sprites.filter fun sprite => sprite.OnLine height y).take 8

theorem Sprite.inRange_iff (sprite : Sprite) (height line : Nat) :
    sprite.InRange height line ↔ sprite.OnLine height (line + 1) := by
  simp only [InRange, OnLine]
  omega

namespace Oam

variable (oam : Oam) (height y : Nat)

/-- A line has eight sprites at most. -/
theorem length_onLine : (oam.onLine height y).length ≤ 8 :=
  List.length_take_le _ _

/-- The sprites of a line have a row on it. -/
theorem onLine_of_mem {sprite : Sprite} (hMem : sprite ∈ oam.onLine height y) :
    sprite.OnLine height y :=
  of_decide_eq_true (List.mem_filter.mp (List.mem_of_mem_take hMem)).2

/-- The first line has no sprites. -/
theorem onLine_zero : oam.onLine height 0 = [] := by
  rw [List.eq_nil_iff_forall_not_mem]
  intro sprite hMem
  exact Nat.not_succ_le_zero _ (oam.onLine_of_mem height 0 hMem).1

/-- The first sprite in memory comes first wherever it has a row. -/
theorem onLine_of_first (hFirst : oam.first.OnLine height y) :
    ∃ rest, oam.onLine height y = oam.first :: rest := by
  have hSprites : oam.sprites = oam.first :: (List.finRange 63).map (oam.sprite ∘ Fin.succ) := by
    rw [sprites, List.finRange_succ, List.map_cons, List.map_map]
    rfl
  have hKeep (rest : List Sprite) :
      (oam.first :: rest).filter (fun sprite => sprite.OnLine height y) =
        oam.first :: rest.filter fun sprite => sprite.OnLine height y :=
    List.filter_cons_of_pos (decide_eq_true hFirst)
  rw [onLine, hSprites, hKeep, List.take_succ_cons]
  exact ⟨_, rfl⟩

end Oam

namespace LineSprites

/-- The sprites in the places that are taken. -/
def taken (found : LineSprites) : List Sprite :=
  found.places.toList.take found.count

variable (height line : Nat) (found : LineSprites) (sprite : Sprite)

theorem count_push (hFree : found.count < 8) : (found.push sprite).count = found.count + 1 := by
  rw [push, dif_pos hFree]

theorem taken_push (hFree : found.count < 8) :
    (found.push sprite).taken = found.taken ++ [sprite] := by
  rw [taken, push, dif_pos hFree, taken, Vector.toList_set]
  have hPlace : found.count < (found.places.toList.set found.count sprite).length := by
    rw [List.length_set, Vector.length_toList]
    exact hFree
  rw [List.take_succ_eq_append_getElem hPlace, List.take_set_of_le (Nat.le_refl _),
    List.getElem_set_self]

/-- From a number of places that are taken already, the first sprites in range take the others. -/
theorem collect_spec (sprites : List Sprite) (hCount : found.count ≤ 8) :
    (collect height line found sprites).1.taken = found.taken ++
        (sprites.filter fun sprite => sprite.InRange height line).take (8 - found.count) ∧
      (collect height line found sprites).1.count = min 8
        (found.count + (sprites.filter fun sprite => sprite.InRange height line).length) := by
  induction sprites generalizing found with
  | nil =>
      rw [collect, List.filter_nil, List.take_nil, List.append_nil, List.length_nil, Nat.add_zero]
      exact ⟨rfl, (Nat.min_eq_right hCount).symm⟩
  | cons sprite rest ih =>
      by_cases hFree : found.count < 8
      · by_cases hRange : sprite.InRange height line
        · have hKeep : (sprite :: rest).filter (fun sprite => sprite.InRange height line) =
              sprite :: rest.filter fun sprite => sprite.InRange height line :=
            List.filter_cons_of_pos (decide_eq_true hRange)
          have hPushed := found.count_push sprite hFree
          have hRoom : 8 - found.count = 8 - (found.push sprite).count + 1 := by omega
          obtain ⟨hTaken, hLength⟩ := ih (found.push sprite) (by omega)
          rw [collect, if_pos hFree, if_pos hRange, hTaken, hLength, taken_push _ _ hFree, hRoom,
            hKeep, List.take_succ_cons, List.append_assoc, List.length_cons]
          exact ⟨rfl, by omega⟩
        · have hSkip : (sprite :: rest).filter (fun sprite => sprite.InRange height line) =
              rest.filter fun sprite => sprite.InRange height line :=
            List.filter_cons_of_neg fun h => hRange (of_decide_eq_true h)
          rw [collect, if_pos hFree, if_neg hRange, hSkip]
          exact ih found hCount
      -- Behind the eighth sprite the memory is not looked at any more.
      · have hFull : found.count = 8 := by omega
        rw [collect, if_neg hFree, hFull, Nat.sub_self, List.take_zero, List.append_nil,
          Nat.min_eq_left (Nat.le_add_right _ _)]
        exact ⟨rfl, rfl⟩

/-- The places that are taken hold the sprites of a list, and it is known whether the first sprite
in memory is one of them. -/
structure Holds (found : LineSprites) (sprites : List Sprite) (zero : Bool) : Prop where
  taken : found.taken = sprites
  count : found.count = sprites.length
  hasZero : found.hasZero = zero

theorem cleared_holds : cleared.Holds [] false :=
  ⟨rfl, rfl, rfl⟩

/-- Going through the memory finds the sprites of the next line. -/
theorem evaluate_holds (oam : Oam) : (found.evaluate oam height line).1.Holds
    (oam.onLine height (line + 1)) (decide (oam.first.OnLine height (line + 1))) := by
  obtain ⟨hTaken, hCount⟩ :=
    collect_spec height line { found with count := 0 } oam.sprites (Nat.zero_le _)
  have hLine : (oam.sprites.filter fun sprite => sprite.InRange height line) =
      oam.sprites.filter fun sprite => sprite.OnLine height (line + 1) := by
    simp only [Sprite.inRange_iff]
  rw [hLine] at hTaken hCount
  refine ⟨hTaken, ?_, ?_⟩
  · rw [Oam.onLine, List.length_take]
    exact hCount.trans (by rw [Nat.zero_add])
  · simp only [evaluate, Sprite.inRange_iff]
    rfl

/-- A sprite of the list is in the place with its number. -/
theorem Holds.place {found : LineSprites} {sprites : List Sprite} {zero : Bool}
    (hHolds : found.Holds sprites zero) {slot : Fin 8} {sprite : Sprite}
    (hSprite : sprites[slot.val]? = some sprite) : found.places[slot] = sprite := by
  obtain ⟨hSlot, hHere⟩ := List.getElem?_eq_some_iff.mp hSprite
  have hTaken := hHolds.taken
  subst hTaken
  rw [← hHere]
  simp only [LineSprites.taken, List.getElem_take, Vector.getElem_toList]
  rfl

end LineSprites

end Nes.Ppu
