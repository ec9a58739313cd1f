import Nes.Proofs.Ppu.SpriteFlags

/-! The limit of eight sprites on a line. The dot that chooses the sprites of the next line goes
through the whole memory: the first eight in range get the places, and if there are more the
overflow flag says so. -/

namespace Nes.Ppu

/-- How far a line is below the first one on which a sprite is looked for. -/
def Sprite.distance (sprite : Sprite) (line : Nat) : Int :=
  line - sprite.y.toNat

/-- The numbers of the sprites in memory that a line is in range of, in order. -/
def Oam.numbersInRange (oam : Oam) (height line : Nat) : List (Fin 64) :=
  (List.finRange 64).filter fun number =>
    0 ≤ (oam.sprite number).distance line ∧ (oam.sprite number).distance line < height

/-- A sprite is in range if its distance to the line is less than its height. -/
theorem Sprite.inRange_iff_distance (sprite : Sprite) (height line : Nat) :
    sprite.InRange height line ↔ 0 ≤ sprite.distance line ∧ sprite.distance line < height := by
  simp only [InRange, distance]
  omega

namespace Oam

variable (oam : Oam) (height line : Nat)

/-- The sprites in range are those with the numbers in range. -/
theorem filter_inRange : (oam.sprites.filter fun sprite => sprite.InRange height line) =
    (oam.numbersInRange height line).map oam.sprite := by
  simp only [sprites, numbersInRange, List.filter_map, Function.comp_def,
    Sprite.inRange_iff_distance]

/-- The first eight sprites on the next line are those with the first eight numbers. -/
theorem onLine_succ : oam.onLine height (line + 1) =
    ((oam.numbersInRange height line).take 8).map oam.sprite := by
  rw [onLine, List.map_take, ← filter_inRange]
  simp only [Sprite.inRange_iff]

end Oam

namespace LineSprites

variable (height line : Nat) (found : LineSprites)

/-- Among the sprites that are left over there is one in range if and only if there are more than
the free places can take. -/
theorem any_collect (sprites : List Sprite) (hCount : found.count ≤ 8) :
    ((collect height line found sprites).2.any fun sprite => decide (sprite.InRange height line)) =
      decide (8 < found.count +
        (sprites.filter fun sprite => sprite.InRange height line).length) := by
  induction sprites generalizing found with
  | nil =>
      rw [collect, List.any_nil, List.filter_nil, List.length_nil]
      exact (decide_eq_false (Nat.not_lt.mpr hCount)).symm
  | cons sprite rest ih =>
      by_cases hFree : found.count < 8
      · by_cases hRange : sprite.InRange height line
        · have hPushed := found.count_push sprite hFree
          rw [collect, if_pos hFree, if_pos hRange, ih _ (by omega), hPushed, List.filter_cons,
            if_pos (decide_eq_true hRange), List.length_cons, Nat.add_assoc, Nat.add_comm 1]
        · rw [collect, if_pos hFree, if_neg hRange, ih _ hCount, List.filter_cons,
            if_neg fun h => hRange (of_decide_eq_true h)]
      -- All places are taken, so that whatever is in range from here on is too much.
      · have hFull : found.count = 8 := by omega
        rw [collect, if_neg hFree, hFull, Bool.eq_iff_iff, List.any_eq_true, decide_eq_true_eq,
          Nat.lt_add_right_iff_pos, List.length_pos_iff_exists_mem]
        simp only [List.mem_filter]

/-- The flag says that a ninth sprite was in range. -/
theorem overflow_evaluate (oam : Oam) : (found.evaluate oam height line).2 =
    decide (8 < (oam.numbersInRange height line).length) := by
  have hAny := any_collect height line { found with count := 0 } oam.sprites (Nat.zero_le _)
  rw [oam.filter_inRange, List.length_map] at hAny
  exact hAny.trans (by rw [Nat.zero_add])

end LineSprites

/-- At dot 65 of a line that is shown, a unit that renders chooses the sprites of the next line. The
sprites in range of the line keep their order in memory, the first eight of them take the places,
each sprite one, and the places are counted. The unit remembers whether the first sprite in memory
is in range; it is then in the first place. The overflow flag is set if more than eight are in range
and is left alone otherwise, and so is the memory. -/
theorem first_eight_chosen {ppu : Ppu} (memory : UInt16 → UInt8) (hLine : ppu.beam.OnVisibleLine)
    (hDot : ppu.beam.dot.val = 65) (hRendering : ppu.mask.rendering = true) :
    let line := ppu.beam.line.val
    let height := ppu.control.spriteHeight
    let numbers := ppu.oam.numbersInRange height line
    let zeroInRange :=
      0 ≤ ppu.oam.first.distance line ∧ ppu.oam.first.distance line < height
    let after := ppu.tick memory
    after.lineSprites.count = min 8 numbers.length ∧
      after.lineSprites.places.toList.take after.lineSprites.count =
        (numbers.take 8).map ppu.oam.sprite ∧
      (after.lineSprites.hasZero = true ↔ zeroInRange) ∧
      (zeroInRange → after.lineSprites.places.toList.head? = some ppu.oam.first ∧
        0 < after.lineSprites.count) ∧
      after.status.spriteOverflow =
        (ppu.status.spriteOverflow || decide (8 < numbers.length)) ∧
      after.oam = ppu.oam := by
  intro line height numbers zeroInRange after
  have hNotCleared : ¬ (ppu.beam.OnFetchLine ∧ ppu.beam.dot.val = 1) := by omega
  have hTick : ppu.lineSprites.tick ppu.beam ppu.control ppu.oam =
      ppu.lineSprites.evaluate ppu.oam height line := by
    rw [LineSprites.tick, if_neg hNotCleared, if_pos ⟨hLine, hDot⟩]
  have hChosen : after.lineSprites = (ppu.lineSprites.evaluate ppu.oam height line).1 := by
    rw [← hTick]
    exact lineSprites_tick memory hRendering
  obtain ⟨hTaken, hCount, hZero⟩ := ppu.lineSprites.evaluate_holds height line ppu.oam
  rw [← hChosen, Oam.onLine_succ] at hTaken hCount
  rw [← hChosen, decide_eq_decide.mpr ((ppu.oam.first.inRange_iff _ _).symm.trans
    (ppu.oam.first.inRange_iff_distance _ _))] at hZero
  refine ⟨?_, hTaken, ?_, fun hInRange => ?_, ?_, oam_tick ppu memory⟩
  · rw [hCount, List.length_map, List.length_take]
  · rw [hZero, decide_eq_true_eq]
  · obtain ⟨rest, hList⟩ := ppu.oam.onLine_of_first height (line + 1)
      ((ppu.oam.first.inRange_iff _ _).mp ((ppu.oam.first.inRange_iff_distance _ _).mpr hInRange))
    rw [← Oam.onLine_succ, hList] at hTaken hCount
    have hSome : 0 < after.lineSprites.count := by
      rw [hCount, List.length_cons]
      exact Nat.succ_pos _
    refine ⟨?_, hSome⟩
    have hHead := congrArg List.head? hTaken
    rwa [LineSprites.taken, List.head?_take, if_neg (Nat.ne_of_gt hSome)] at hHead
  · have hNotEnd : ¬ ppu.beam.At Beam.preRenderLine 1 := by
      simp only [Beam.At]
      omega
    have hFlag := SpriteFlag.overflow.isSet_tick ppu memory
    rw [hRendering, Bool.true_and, decide_eq_false hNotEnd, Bool.not_false, Bool.and_true,
      SpriteFlag.foundBy, hTick, LineSprites.overflow_evaluate] at hFlag
    exact hFlag

/-- A unit that is about to choose among sprites of which every seventh begins on the line, ten in
all, from the first one in memory to the last. -/
def scatteredSprites : Ppu where
  mask := ⟨0x08⟩
  beam := .choosing
  oam := [0, 28, 56, 84, 112, 140, 168, 196, 224, 252].foldl
    (fun oam place => oam.setByte place 0) {}

/-- The ninth and the tenth sprite get no place. -/
theorem first_eight_chosen_scattered :
    let after := scatteredSprites.tick fun _ => 0
    scatteredSprites.beam.OnVisibleLine ∧ scatteredSprites.beam.dot.val = 65 ∧
      scatteredSprites.mask.rendering = true ∧ after.lineSprites.count = 8 ∧
      after.lineSprites.places.toList = List.replicate 8 ⟨0, 0xff, ⟨0xff⟩, 0xff⟩ ∧
      after.lineSprites.hasZero = true ∧ after.status.spriteOverflow = true := by
  intro after
  have hLine : scatteredSprites.beam.OnVisibleLine := by decide
  have hDot : scatteredSprites.beam.dot.val = 65 := rfl
  have hRendering : scatteredSprites.mask.rendering = true := by decide
  have hNumbers : scatteredSprites.oam.numbersInRange scatteredSprites.control.spriteHeight
      scatteredSprites.beam.line.val = [0, 7, 14, 21, 28, 35, 42, 49, 56, 63] := by decide +kernel
  obtain ⟨hCount, hPlaces, hZero, -, hOverflow, -⟩ :=
    first_eight_chosen (fun _ => 0) hLine hDot hRendering
  rw [hNumbers] at hCount hPlaces hOverflow
  rw [hCount] at hPlaces
  have hTaken : after.lineSprites.places.toList.take 8 = after.lineSprites.places.toList :=
    List.take_of_length_le (Nat.le_of_eq Vector.length_toList)
  refine ⟨hLine, hDot, hRendering, hCount, ?_, hZero.mpr ?_, hOverflow⟩
  · rw [← hTaken]
    exact hPlaces.trans (by decide +kernel)
  · decide +kernel

end Nes.Ppu
