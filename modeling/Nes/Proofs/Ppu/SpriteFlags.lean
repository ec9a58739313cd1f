import Nes.Proofs.Ppu.BlankWindow
import Nes.Proofs.Ppu.Composition

/-! The two flags that sprites leave in the status register. Dots of a unit that renders set them on
the lines that are shown, and the line before a picture clears them. In between they stay, whatever
a program does, so that it finds them whenever it looks. -/

namespace Nes.Ppu

/-- A flag that sprites set in the status register. -/
inductive SpriteFlag where
  /-- A line has more sprites than places. -/
  | overflow
  /-- The first sprite in memory has met the background. -/
  | zeroHit
  deriving DecidableEq, Repr

namespace SpriteFlag

def isSet (flag : SpriteFlag) (status : Status) : Bool :=
  match flag with
  | overflow => status.spriteOverflow
  | zeroHit => status.spriteZeroHit

/-- The place of the flag in the byte of the status register. -/
def bit : SpriteFlag → UInt8
  | overflow => 0x20
  | zeroHit => 0x40

/-- What the flag reports happens under the beam, if the unit renders. -/
def foundBy (flag : SpriteFlag) (ppu : Ppu) : Bool :=
  match flag with
  | overflow => (ppu.lineSprites.tick ppu.beam ppu.control ppu.oam).2
  | zeroHit => ppu.layers.hitsZero ppu.beam.column

/-- The places of the raster and the masks at which the flag can be set. The first sprite can meet
the background only where both are shown, and never in the last column. -/
def MaySet (flag : SpriteFlag) (beam : Beam) (mask : Mask) : Prop :=
  mask.rendering = true ∧ beam.line.val < 240 ∧
    match flag with
    | overflow => beam.dot.val = 65
    | zeroHit =>
      (1 ≤ beam.dot.val ∧ beam.dot.val ≤ 255) ∧
        (mask.showsBackground = true ∧ mask.showsSprites = true) ∧
          (9 ≤ beam.dot.val ∨ mask.backgroundOnLeft = true ∧ mask.spritesOnLeft = true)

/-- Too many sprites are found only where the sprites of the next line are chosen. -/
theorem at_of_foundBy_overflow {ppu : Ppu} (hFound : overflow.foundBy ppu = true) :
    ppu.beam.OnVisibleLine ∧ ppu.beam.dot.val = 65 := by
  simp only [foundBy, LineSprites.tick] at hFound
  split at hFound
  · exact absurd hFound Bool.false_ne_true
  · split at hFound
    · rename_i hHere
      exact hHere
    · exact absurd hFound Bool.false_ne_true

/-- Layers that give a hit are those under a pixel, and the mask lets both of them through. -/
theorem shown_of_foundBy_zeroHit {ppu : Ppu} (hFound : zeroHit.foundBy ppu = true) :
    ppu.beam.OnPixel ∧ ppu.mask.backgroundAt ppu.beam.column = true ∧
      ppu.mask.spritesAt ppu.beam.column = true ∧ ppu.beam.column ≠ 255 := by
  simp only [foundBy, layers] at hFound
  by_cases hPixel : ppu.beam.OnPixel
  · rw [if_pos hPixel, Layers.hitsZero, Layers.masked, Bool.and_eq_true, Bool.and_eq_true,
      bne_iff_ne] at hFound
    obtain ⟨⟨hSprite, hBackground⟩, hColumn⟩ := hFound
    refine ⟨hPixel, ?_, ?_, hColumn⟩
    · cases hAt : ppu.mask.backgroundAt ppu.beam.column with
      | true => rfl
      | false =>
          rw [hAt] at hBackground
          exact hBackground
    · cases hAt : ppu.mask.spritesAt ppu.beam.column with
      | true => rfl
      | false =>
          rw [hAt] at hSprite
          exact hSprite
  · rw [if_neg hPixel] at hFound
    exact absurd hFound Bool.false_ne_true

/-- A flag is set only where the beam and the mask allow it. -/
theorem maySet_of_foundBy {flag : SpriteFlag} {ppu : Ppu} (hRendering : ppu.mask.rendering = true)
    (hFound : flag.foundBy ppu = true) : flag.MaySet ppu.beam ppu.mask := by
  cases flag with
  | overflow =>
      obtain ⟨hLine, hDot⟩ := at_of_foundBy_overflow hFound
      exact ⟨hRendering, hLine, hDot⟩
  | zeroHit =>
      obtain ⟨⟨hLine, hFirst, hLast⟩, hBackground, hSprites, hColumn⟩ :=
        shown_of_foundBy_zeroHit hFound
      have hDot : ppu.beam.dot.val = ppu.beam.column + 1 := by
        rw [Beam.column]
        omega
      rw [Mask.backgroundAt, Bool.and_eq_true, Bool.or_eq_true, decide_eq_true_eq] at hBackground
      rw [Mask.spritesAt, Bool.and_eq_true, Bool.or_eq_true, decide_eq_true_eq] at hSprites
      refine ⟨hRendering, hLine, ⟨hFirst, by omega⟩, ⟨hBackground.1, hSprites.1⟩, ?_⟩
      rcases hBackground.2 with hInside | hBackgroundLeft
      · exact .inl (by omega)
      · rcases hSprites.2 with hInside | hSpritesLeft
        · exact .inl (by omega)
        · exact .inr ⟨hBackgroundLeft, hSpritesLeft⟩

/-- A dot of a unit that renders sets the flag where it finds what the flag reports, and the line
before a picture clears it even then. -/
theorem isSet_tick (flag : SpriteFlag) (ppu : Ppu) (memory : UInt16 → UInt8) :
    flag.isSet (ppu.tick memory).status =
      ((flag.isSet ppu.status || ppu.mask.rendering && flag.foundBy ppu) &&
        !decide (ppu.beam.At Beam.preRenderLine 1)) := by
  have hEnd (status : Status) : flag.isSet (status.tick ppu.beam) =
      (flag.isSet status && !decide (ppu.beam.At Beam.preRenderLine 1)) := by
    cases flag with
    | overflow => exact (status.spriteFlags_tick ppu.beam).1
    | zeroHit => exact (status.spriteFlags_tick ppu.beam).2
  rw [status_tick, hEnd]
  cases hRendering : ppu.mask.rendering with
  | true =>
      rw [if_pos rfl, Bool.true_and]
      cases flag <;> rfl
  | false => rw [if_neg Bool.false_ne_true, Bool.false_and, Bool.or_false]

/-- A program finds the flag in the byte that a read of the status register gives. -/
theorem bit_latch_read (flag : SpriteFlag) (ppu : Ppu) (memory : UInt16 → UInt8) :
    (ppu.read memory .status).latch &&& flag.bit ≠ 0 ↔ flag.isSet ppu.status = true := by
  have hBits : 0x1f &&& flag.bit = 0 := by cases flag <;> rfl
  have hByte : (ppu.read memory .status).latch &&& flag.bit = ppu.status.toByte &&& flag.bit :=
    ppu.status.toByte_latched_and ppu.latch hBits
  rw [hByte]
  generalize ppu.status = status
  obtain ⟨overflow, zeroHit, blank⟩ := status
  cases flag <;> cases overflow <;> cases zeroHit <;> cases blank <;> decide

end SpriteFlag

namespace Moment

def finds (moment : Moment) (flag : SpriteFlag) : Bool :=
  moment.action.isDot && (moment.before.mask.rendering && flag.foundBy moment.before)

def setsFlag (moment : Moment) (flag : SpriteFlag) : Bool :=
  !flag.isSet moment.before.status && flag.isSet moment.after.status

def clearsFlag (moment : Moment) (flag : SpriteFlag) : Bool :=
  flag.isSet moment.before.status && !flag.isSet moment.after.status

/-- Whatever the action is, it sets a flag by finding what the flag reports, and clears it at the
end of vertical blanking. -/
theorem isSet_after (moment : Moment) (flag : SpriteFlag) :
    flag.isSet moment.after.status =
      ((flag.isSet moment.before.status || moment.finds flag) && !moment.endsBlank) := by
  obtain ⟨ppu, action⟩ := moment
  simp only [after, finds, endsBlank, isDotAt]
  cases action with
  | dot memory => exact flag.isSet_tick ppu memory
  | read memory register =>
      simp only [Action.isDot, Bool.false_and, Bool.or_false, Bool.not_false, Bool.and_true]
      cases register <;> simp only [apply, read]
      · cases flag <;> rfl
      · split <;> rfl
  | write register value =>
      simp only [apply, status_write, Action.isDot, Bool.false_and, Bool.or_false, Bool.not_false,
        Bool.and_true]
  | poll =>
      simp only [apply, pollNmi, Action.isDot, Bool.false_and, Bool.or_false, Bool.not_false,
        Bool.and_true]

end Moment

/-- What happened since the flags of the sprites were cleared, the latest first. -/
def sinceCleared (history : List Moment) : List Moment :=
  history.reverse.takeWhile fun moment => !moment.endsBlank

/-- The history since a flag was cleared, moment by moment. -/
theorem sinceCleared_concat (history : List Moment) (moment : Moment) :
    sinceCleared (history ++ [moment]) =
      if moment.endsBlank then [] else moment :: sinceCleared history := by
  rw [sinceCleared, List.reverse_concat, List.takeWhile_cons]
  cases moment.endsBlank <;> rfl

/-- A flag is set if and only if what it reports has been found since it was cleared. A flag that
was set before counts as long as it was not cleared at all. -/
def FoundSince (flag : SpriteFlag) (before : Bool) (history : List Moment) (ppu : Ppu) : Prop :=
  flag.isSet ppu.status = true ↔
    (∃ moment ∈ sinceCleared history, moment.finds flag = true) ∨
      before = true ∧ ∀ moment ∈ history, moment.endsBlank = false

/-- One action keeps the account of a flag. -/
theorem FoundSince.apply {flag : SpriteFlag} {before : Bool} {history : List Moment} {ppu : Ppu}
    (hFound : FoundSince flag before history ppu) (action : Action) :
    FoundSince flag before (history ++ [⟨ppu, action⟩]) (ppu.apply action) := by
  let moment : Moment := ⟨ppu, action⟩
  have hBefore : flag.isSet moment.before.status = true ↔ _ := hFound
  rw [FoundSince, show flag.isSet (ppu.apply action).status = _ from moment.isSet_after flag,
    sinceCleared_concat]
  cases hEnds : moment.endsBlank with
  | true => simp [hEnds, moment]
  | false =>
      rw [Bool.not_false, Bool.and_true, Bool.or_eq_true, hBefore, if_neg Bool.false_ne_true]
      -- The action itself comes first behind a clear, and it is no clear.
      simp only [List.mem_cons, List.mem_append, List.not_mem_nil, or_false, exists_eq_or_imp]
      grind

/-- Any number of actions keeps the account of a flag. -/
theorem foundSince_execute (flag : SpriteFlag) (ppu : Ppu) (actions : List Action) :
    FoundSince flag (flag.isSet ppu.status) (ppu.moments actions) (ppu.execute actions) := by
  have hStart : FoundSince flag (flag.isSet ppu.status) [] ppu := by
    simp [FoundSince, sinceCleared]
  exact history_induction (fun _ _ action hFound => hFound.apply action) hStart actions

/-- The life of a flag of the sprites, from any state and however dots and accesses follow each
other. Only the dot that ends vertical blanking clears it, and that one always does, whether the
unit renders or not. Only a dot that finds what the flag reports sets it, in a unit that renders, on
a line that is shown and at the places where that can happen. So the flag stays until it is cleared,
and a program that reads the status register finds it if and only if what it reports has happened
since then. -/
theorem spriteFlag_life_cycle (flag : SpriteFlag) (ppu : Ppu) (actions : List Action) :
    let history := ppu.moments actions
    let after := ppu.execute actions
    (∀ moment ∈ history, moment.clearsFlag flag = true → moment.isDotAt 261 1 = true) ∧
    (∀ moment ∈ history, moment.isDotAt 261 1 = true →
      flag.isSet moment.after.status = false) ∧
    (∀ moment ∈ history, moment.setsFlag flag = true → moment.finds flag = true) ∧
    (∀ moment ∈ history, moment.finds flag = true →
      moment.action.isDot = true ∧ flag.MaySet moment.before.beam moment.before.mask) ∧
    ((∀ moment ∈ history, moment.isDotAt 261 1 = false) →
      flag.isSet ppu.status = true → flag.isSet after.status = true) ∧
    ∀ memory address, address.toNat % 8 = 2 →
      ((after.read memory (.ofAddress address)).latch &&& flag.bit ≠ 0 ↔
        (∃ moment ∈ sinceCleared history, moment.finds flag = true) ∨
          flag.isSet ppu.status = true ∧ ∀ moment ∈ history, moment.isDotAt 261 1 = false) := by
  intro history after
  have hFound : FoundSince flag (flag.isSet ppu.status) history after :=
    foundSince_execute flag ppu actions
  refine ⟨?_, ?_, ?_, ?_, ?_, ?_⟩
  · intro moment _ hClears
    rw [Moment.clearsFlag, moment.isSet_after flag, Bool.and_eq_true] at hClears
    cases hEnds : moment.endsBlank with
    | true => exact hEnds
    | false =>
        rw [hClears.1, hEnds] at hClears
        exact absurd hClears.2 Bool.false_ne_true
  · intro moment _ hEnds
    rw [moment.isSet_after flag, show moment.endsBlank = true from hEnds, Bool.not_true,
      Bool.and_false]
  · intro moment _ hSets
    rw [Moment.setsFlag, moment.isSet_after flag, Bool.and_eq_true, Bool.not_eq_true'] at hSets
    rw [hSets.1, Bool.false_or, Bool.and_eq_true] at hSets
    exact hSets.2.1
  · intro moment _ hFinds
    rw [Moment.finds, Bool.and_eq_true, Bool.and_eq_true] at hFinds
    exact ⟨hFinds.1, SpriteFlag.maySet_of_foundBy hFinds.2.1 hFinds.2.2⟩
  · intro hKept hSet
    exact hFound.mpr (.inr ⟨hSet, hKept⟩)
  · intro memory address hAddress
    have hStatus : Register.ofAddress address = .status :=
      of_decide_eq_true ((readsStatus_ofAddress memory address).trans (decide_eq_true hAddress))
    rw [hStatus, flag.bit_latch_read]
    exact hFound

theorem choosingDot_lt : 65 < 341 := by decide

/-- The dot of the first line that chooses the sprites of the next one. -/
def Beam.choosing : Beam :=
  { Beam.start with dot := ⟨65, choosingDot_lt⟩ }

/-- A unit that is about to choose among sprites that all begin on the same line. -/
def crowdedTop : Ppu where
  mask := ⟨0x18⟩
  beam := .choosing
  oam := { bytes := Vector.replicate 256 0 }

/-- A unit at the start of the line before a picture, with all flags set. It shows nothing. -/
def blankedPicture : Ppu where
  status := { spriteOverflow := true, spriteZeroHit := true, verticalBlank := true }
  beam := { Beam.start with line := .last 261 }

/-- The dot that finds too many sprites sets the overflow flag, which is still there when nothing is
shown any more. The flag of the first sprite outlives a read at the start of the line before a
picture, and the dot behind it clears the flag. -/
theorem spriteFlag_life_cycle_crowded :
    let dot : Action := .dot fun _ => 0
    let chooses : Moment := ⟨crowdedTop, dot⟩
    let shown := [dot, .write .mask 0, dot]
    let read : Action := .read (fun _ => 0) .status
    let clears : Moment := ⟨blankedPicture.execute [dot, read], dot⟩
    chooses ∈ crowdedTop.moments shown ∧ chooses.setsFlag .overflow = true ∧
      SpriteFlag.overflow.MaySet crowdedTop.beam crowdedTop.mask ∧
      (0x3ffa : UInt16).toNat % 8 = 2 ∧
      ((crowdedTop.execute shown).read (fun _ => 0) (.ofAddress 0x3ffa)).latch &&& 0x20 ≠ 0 ∧
      (∀ moment ∈ blankedPicture.moments [dot, read], moment.isDotAt 261 1 = false) ∧
      SpriteFlag.zeroHit.isSet (blankedPicture.execute [dot, read]).status = true ∧
      clears.clearsFlag .zeroHit = true ∧ clears.isDotAt 261 1 = true ∧
      SpriteFlag.zeroHit.isSet clears.after.status = false := by
  intro dot chooses shown read clears
  obtain ⟨-, -, hSets, hFinds, -, hRead⟩ :=
    spriteFlag_life_cycle .overflow crowdedTop shown
  obtain ⟨-, -, -, -, hKept, -⟩ := spriteFlag_life_cycle .zeroHit blankedPicture [dot, read]
  obtain ⟨hClears, hCleared, -⟩ :=
    spriteFlag_life_cycle .zeroHit blankedPicture [dot, read, dot]
  have hChooses : chooses ∈ crowdedTop.moments shown := List.mem_cons_self
  have hClearing : clears ∈ blankedPicture.moments [dot, read, dot] :=
    List.mem_cons_of_mem _ (List.mem_cons_of_mem _ List.mem_cons_self)
  have hSet : chooses.setsFlag .overflow = true := by decide
  have hQuiet : ∀ moment ∈ blankedPicture.moments [dot, read], moment.isDotAt 261 1 = false := by
    decide
  have hClear : clears.clearsFlag .zeroHit = true := by decide
  have hFound := hSets chooses hChooses hSet
  have hSince : chooses ∈ sinceCleared (crowdedTop.moments shown) := by
    exact List.mem_cons_of_mem _ (List.mem_cons_of_mem _ List.mem_cons_self)
  exact ⟨hChooses, hSet, (hFinds chooses hChooses hFound).2, rfl,
    (hRead _ _ rfl).mpr (.inl ⟨chooses, hSince, hFound⟩), hQuiet, hKept hQuiet rfl, hClear,
    hClears clears hClearing hClear, hCleared clears hClearing (hClears clears hClearing hClear)⟩

end Nes.Ppu
