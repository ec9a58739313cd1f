import Nes.Proofs.Bus.PictureMemory
import Nes.Proofs.Ppu.SpriteChoice

/-! The picture unit with cells that may be missing. Whatever works on a memory is written once more
with plain numbers for its cells, as they are computed, and has no answer if there is no such cell.
It always has the answer of the unit, as long as no more than eight sprites are found for a line. -/

namespace Nes

/-- Puts a value into a cell, if it exists. -/
def storeAt? {α : Type} {size : Nat} (cells : Vector α size) (place : Nat) (value : α) :
    Option (Vector α size) :=
  if inside : place < size then some (cells.set place value inside) else none

theorem storeAt?_eq {α : Type} {size : Nat} (cells : Vector α size) {place : Nat}
    (hInside : place < size) (value : α) :
    storeAt? cells place value = some (cells.set place value hInside) :=
  dif_pos hInside

namespace Ppu

namespace Palette

variable (palette : Palette) (mask : Mask) (address : UInt16) (value : UInt8)

def read? : Option UInt8 := do
  let colour ← palette.colours[folded address]?
  return colour &&& mask.colourBits

def write? : Option Palette := do
  let colours ← storeAt? palette.colours (folded address) (value &&& 0x3f)
  return { palette with colours }

theorem folded_lt : folded address < 32 := by
  rw [← val_index]
  exact (index address).isLt

theorem read?_eq : palette.read? mask address = some (palette.read mask address) := by
  simp only [read?, Vector.getElem?_eq_getElem (folded_lt address), read, colour, Fin.getElem_fin,
    val_index]
  rfl

theorem write?_eq : palette.write? address value = some (palette.write address value) := by
  simp only [write?, storeAt?_eq _ (folded_lt address), write, val_index]
  rfl

end Palette

namespace Oam

variable (oam : Oam) (address value : UInt8)

/-- The place of a byte of a sprite, if there is a sprite with the number. -/
def place? (number byte : Nat) : Option Nat :=
  if number < 64 ∧ byte < 4 then some (4 * number + byte) else none

/-- A byte of the sprite with a number. -/
def byteOf? (number byte : Nat) : Option UInt8 := do
  let place ← place? number byte
  oam.bytes[place]?

/-- The byte at an address: four bytes for each sprite. -/
def byte? : Option UInt8 :=
  oam.byteOf? (address.toNat / 4) (address.toNat % 4)

def setByte? : Option Oam := do
  let place ← place? (address.toNat / 4) (address.toNat % 4)
  let bytes ← storeAt? oam.bytes place value
  return { oam with bytes }

def readByte? : Option UInt8 := do
  let byte ← oam.byte? address
  return if address % 4 = 2 then byte &&& 0xe3 else byte

def sprite? (number : Nat) : Option Sprite := do
  let y ← oam.byteOf? number 0
  let tile ← oam.byteOf? number 1
  let attributes ← oam.byteOf? number 2
  let x ← oam.byteOf? number 3
  return { y, tile, attributes := ⟨attributes⟩, x }

def sprites? : Option (List Sprite) :=
  (List.range 64).mapM oam.sprite?

theorem place?_eq : place? (address.toNat / 4) (address.toNat % 4) = some address.toNat := by
  have hLt := address.toNat_lt
  have hInside : address.toNat / 4 < 64 ∧ address.toNat % 4 < 4 := by omega
  rw [place?, if_pos hInside, Nat.div_add_mod]

theorem byte?_eq : oam.byte? address = some (oam.byte address) := by
  simp only [byte?, byteOf?, place?_eq, byte, index, Fin.getElem_fin, Option.bind_eq_bind,
    Option.bind_some, Vector.getElem?_eq_getElem address.toNat_lt]

theorem setByte?_eq : oam.setByte? address value = some (oam.setByte address value) := by
  simp only [setByte?, place?_eq, setByte, index, Option.bind_eq_bind, Option.bind_some,
    storeAt?_eq _ address.toNat_lt]
  rfl

theorem readByte?_eq : oam.readByte? address = some (oam.readByte address) := by
  simp only [readByte?, byte?_eq, readByte]
  rfl

theorem byteOf?_eq {number byte : Nat} (hNumber : number < 64) (hByte : byte < 4) :
    oam.byteOf? number byte = oam.bytes[4 * number + byte]? := by
  rw [byteOf?, place?, if_pos ⟨hNumber, hByte⟩]
  rfl

/-- All four bytes of a sprite are there. -/
theorem sprite?_eq (number : Fin 64) : oam.sprite? number.val = some (oam.sprite number) := by
  have hNumber := number.isLt
  have hByte {byte : Nat} (hSmall : byte < 4) : 4 * number.val + byte < 256 := by omega
  have hFirst : (0 : Nat) < 4 := by decide
  have hSecond : (1 : Nat) < 4 := by decide
  have hThird : (2 : Nat) < 4 := by decide
  have hFourth : (3 : Nat) < 4 := by decide
  rw [sprite?, oam.byteOf?_eq hNumber hFirst, oam.byteOf?_eq hNumber hSecond,
    oam.byteOf?_eq hNumber hThird, oam.byteOf?_eq hNumber hFourth,
    Vector.getElem?_eq_getElem (hByte hFirst), Vector.getElem?_eq_getElem (hByte hSecond),
    Vector.getElem?_eq_getElem (hByte hThird), Vector.getElem?_eq_getElem (hByte hFourth)]
  rfl

theorem sprites?_eq : oam.sprites? = some oam.sprites := by
  have hNumbers : List.range 64 = (List.finRange 64).map Fin.val := by
    apply List.ext_getElem
    · simp
    · simp
  have hSprites : oam.sprite? ∘ Fin.val = fun number => some (oam.sprite number) :=
    funext oam.sprite?_eq
  rw [sprites?, hNumbers, List.mapM_map, hSprites]
  exact List.mapM_pure

end Oam

namespace LineSprites

def push? (found : LineSprites) (sprite : Sprite) : Option LineSprites := do
  let places ← storeAt? found.places found.count sprite
  return { found with places, count := found.count + 1 }

def collect? (height line : Nat) (found : LineSprites) :
    List Sprite → Option (LineSprites × List Sprite)
  | [] => some (found, [])
  | sprite :: rest =>
    if found.count = 8 then some (found, sprite :: rest)
    else if sprite.InRange height line then do collect? height line (← found.push? sprite) rest
    else collect? height line found rest

def evaluate? (previous : LineSprites) (oam : Oam) (height line : Nat) :
    Option (LineSprites × Bool) := do
  let (found, rest) ← collect? height line { previous with count := 0 } (← oam.sprites?)
  let first ← oam.sprite? 0
  return ({ found with hasZero := decide (first.InRange height line) },
    rest.any fun sprite => decide (sprite.InRange height line))

def tick? (found : LineSprites) (beam : Beam) (control : Control) (oam : Oam) :
    Option (LineSprites × Bool) :=
  if beam.OnFetchLine ∧ beam.dot.val = 1 then some (cleared, false)
  else if beam.OnVisibleLine ∧ beam.dot.val = 65 then
    found.evaluate? oam control.spriteHeight beam.line.val
  else some (found, false)

variable (height line : Nat) (found : LineSprites) (oam : Oam)

/-- A sprite finds a place as long as there is one. -/
theorem push?_eq (sprite : Sprite) (hFree : found.count < 8) :
    found.push? sprite = some (found.push sprite) := by
  rw [push?, storeAt?_eq _ hFree, push, dif_pos hFree]
  rfl

/-- A free place is found for each sprite, as the places are counted up to the last one. -/
theorem collect?_eq (sprites : List Sprite) (hCount : found.count ≤ 8) :
    collect? height line found sprites = some (collect height line found sprites) := by
  induction sprites generalizing found with
  | nil => rfl
  | cons sprite rest ih =>
      by_cases hFull : found.count = 8
      · rw [collect?, if_pos hFull, collect, if_neg (Nat.not_lt.mpr (Nat.le_of_eq hFull.symm))]
      · have hFree : found.count < 8 := Nat.lt_of_le_of_ne hCount hFull
        rw [collect?, if_neg hFull, collect, if_pos hFree, push?_eq _ _ hFree]
        split
        · have hPushed := found.count_push sprite hFree
          exact ih (found.push sprite) (by omega)
        · exact ih found hCount

/-- The choice of the sprites of a line finds all that it uses. -/
theorem evaluate?_eq :
    found.evaluate? oam height line = some (found.evaluate oam height line) := by
  have hCollect := collect?_eq height line { found with count := 0 } oam.sprites (Nat.zero_le 8)
  have hFirst : oam.sprite? 0 = some (oam.sprite 0) := oam.sprite?_eq 0
  simp only [evaluate?, oam.sprites?_eq, hFirst, Option.bind_eq_bind, Option.bind_some, hCollect]
  rfl

theorem tick?_eq (beam : Beam) (control : Control) :
    found.tick? beam control oam = some (found.tick beam control oam) := by
  rw [tick?, tick, evaluate?_eq, apply_ite some, apply_ite some]

/-- No more sprites are found for a line than there are places. -/
theorem count_tick_le (beam : Beam) (control : Control) (hCount : found.count ≤ 8) :
    (found.tick beam control oam).1.count ≤ 8 := by
  rw [tick]
  split
  · exact Nat.zero_le 8
  · split
    · have hSpec := collect_spec control.spriteHeight beam.line.val { found with count := 0 }
        oam.sprites (Nat.zero_le 8)
      exact Nat.le_trans (Nat.le_of_eq hSpec.2) (Nat.min_le_left 8 _)
    · exact hCount

end LineSprites

/-- The address from which the row of a tile or a sprite is fetched, with the sprite in the place
that the dot belongs to. -/
def nextPatternAddress? (old : UInt16) (beam : Beam) (control : Control) (scroll : Scroll)
    (background : Background) (found : LineSprites) : Option UInt16 :=
  let dot := beam.dot.val
  if beam.OnFetchLine ∧ dot % 8 = 5 then
    if Background.Fetches dot then some (background.patternAddress control scroll)
    else if SpriteUnits.Fetches dot ∧ (dot - 257) / 8 < found.count then do
      let sprite ← found.places[(dot - 257) / 8]?
      return sprite.patternAddress control beam.line.val
    else some old
  else some old

/-- Each of the eight places has its dots. -/
theorem slot_eq {dot : Nat} (hFetches : SpriteUnits.Fetches dot) :
    (SpriteUnits.slot dot).val = (dot - 257) / 8 := by
  obtain ⟨hFirst, hLast⟩ := hFetches
  simp only [SpriteUnits.slot]
  omega

theorem getElem?_slot {α : Type} (places : Vector α 8) {dot : Nat}
    (hFetches : SpriteUnits.Fetches dot) :
    places[(dot - 257) / 8]? = some places[SpriteUnits.slot dot] := by
  rw [← slot_eq hFetches]
  exact Vector.getElem?_eq_getElem (SpriteUnits.slot dot).isLt

theorem storeAt?_slot {α : Type} (places : Vector α 8) {dot : Nat}
    (hFetches : SpriteUnits.Fetches dot) (value : α) :
    storeAt? places ((dot - 257) / 8) value =
      some (places.set (SpriteUnits.slot dot) value (SpriteUnits.slot dot).isLt) := by
  rw [← slot_eq hFetches]
  exact storeAt?_eq places (SpriteUnits.slot dot).isLt value

theorem nextPatternAddress?_eq (old : UInt16) (beam : Beam) (control : Control) (scroll : Scroll)
    (background : Background) (found : LineSprites) :
    nextPatternAddress? old beam control scroll background found =
      some (nextPatternAddress old beam control scroll background found) := by
  simp only [nextPatternAddress?, nextPatternAddress]
  split
  · split
    · rfl
    · by_cases hFetches : SpriteUnits.Fetches beam.dot.val
      · simp only [getElem?_slot _ hFetches, slot_eq hFetches]
        split <;> rfl
      · simp only [hFetches, false_and, if_false]
  · rfl

section Fetch

variable {memory? : UInt16 → Option UInt8} {memory : UInt16 → UInt8}
  (hMemory : ∀ address, memory? address = some (memory address))

def Background.fetch? (background : Background) (beam : Beam) (scroll : Scroll)
    (memory? : UInt16 → Option UInt8) (address : UInt16) : Option Background :=
  if beam.OnFetchLine ∧ Fetches beam.dot.val then
    match beam.dot.val % 8 with
    | 1 => do return { background with tile := ← memory? scroll.current.tileAddress }
    | 3 => do
      let attributes ← memory? scroll.current.attributeAddress
      return { background with attributes := attributes >>> scroll.current.attributeShift }
    | 5 => do return { background with lowPlane := ← memory? address }
    | 7 => do return { background with highPlane := ← memory? (address + 8) }
    | _ => some background
  else
    some background

include hMemory

theorem Background.fetch?_eq (background : Background) (beam : Beam) (scroll : Scroll)
    (address : UInt16) :
    background.fetch? beam scroll memory? address =
      some (background.fetch beam scroll memory address) := by
  simp only [fetch?, fetch, hMemory]
  split
  · generalize beam.dot.val % 8 = phase
    rcases phase with _ | _ | _ | _ | _ | _ | _ | _ | phase <;> rfl
  · rfl

omit hMemory

/-- A plane of the row of a sprite. Nothing is fetched for an unused place. -/
def SpriteUnits.plane? (used : Bool) (memory? : UInt16 → Option UInt8) (address : UInt16) :
    Option UInt8 :=
  if used then memory? address else some 0

include hMemory

theorem SpriteUnits.plane?_eq (used : Bool) (address : UInt16) :
    plane? used memory? address = some (if used then memory address else 0) := by
  rw [plane?, hMemory, apply_ite some]

omit hMemory

def SpriteUnits.fetch? (sprites : SpriteUnits) (beam : Beam) (found : LineSprites)
    (memory? : UInt16 → Option UInt8) (address : UInt16) : Option SpriteUnits :=
  let dot := beam.dot.val
  if beam.OnFetchLine ∧ Fetches dot then
    let slot := (dot - 257) / 8
    let used := decide (slot < found.count)
    match dot % 8 with
    | 5 => do return { sprites with lowPlane := ← plane? used memory? address }
    | 7 => do return { sprites with highPlane := ← plane? used memory? (address + 8) }
    | 0 => do
      let sprite ← found.places[slot]?
      let unit := SpriteUnit.load sprite used sprites.lowPlane sprites.highPlane
      return { sprites with units := ← storeAt? sprites.units slot unit }
    | _ => some (if dot = 257 then { sprites with hasZero := found.hasZero } else sprites)
  else
    some sprites

include hMemory

theorem SpriteUnits.fetch?_eq (sprites : SpriteUnits) (beam : Beam) (found : LineSprites)
    (address : UInt16) :
    sprites.fetch? beam found memory? address =
      some (sprites.fetch beam found memory address) := by
  simp only [fetch?, fetch, plane?_eq hMemory]
  split
  · rename_i hDot
    simp only [getElem?_slot _ hDot.2, storeAt?_slot _ hDot.2, slot_eq hDot.2]
    generalize beam.dot.val % 8 = phase
    rcases phase with _ | _ | _ | _ | _ | _ | _ | _ | phase <;> rfl
  · rfl

end Fetch

namespace Beam

/-- The position with plain numbers, if there are such a line and such a dot. -/
def at? (beam : Beam) (line dot : Nat) : Option Beam :=
  if inside : line < 262 ∧ dot < 341 then
    some { beam with line := ⟨line, inside.1⟩, dot := ⟨dot, inside.2⟩ }
  else none

def next? (beam : Beam) (rendering : Bool) : Option Beam :=
  if beam.EndsLine rendering then
    if beam.line.val = 261 then
      { beam with oddFrame := !beam.oddFrame, frames := beam.frames + 1 }.at? 0 0
    else beam.at? (beam.line.val + 1) 0
  else beam.at? beam.line.val (beam.dot.val + 1)

theorem at?_eq (beam : Beam) {line dot : Nat} (hLine : line < 262) (hDot : dot < 341) :
    beam.at? line dot = some { beam with line := ⟨line, hLine⟩, dot := ⟨dot, hDot⟩ } :=
  dif_pos ⟨hLine, hDot⟩

/-- The beam never leaves the raster. -/
theorem next?_eq (beam : Beam) (rendering : Bool) :
    beam.next? rendering = some (beam.next rendering) := by
  have hLine := beam.line.isLt
  have hDot := beam.dot.isLt
  rw [next?, next]
  split
  · rename_i hEnds
    split
    · exact at?_eq _ (by decide) (by decide)
    · rename_i hLast
      have hNext : beam.line.val + 1 < 262 := by omega
      have hSum : (⟨beam.line.val + 1, hNext⟩ : Fin 262) = beam.line + 1 :=
        Fin.ext (Nat.mod_eq_of_lt hNext).symm
      rw [beam.at?_eq hNext (by decide), hSum]
      rfl
  · rename_i hEnds
    have hNext : beam.dot.val + 1 < 341 := by omega
    have hSum : (⟨beam.dot.val + 1, hNext⟩ : Fin 341) = beam.dot + 1 :=
      Fin.ext (Nat.mod_eq_of_lt hNext).symm
    rw [beam.at?_eq hLine hNext, hSum]

end Beam

/-- The picture that is being drawn with the pixel of this dot, if the dot has one. -/
def draw? (ppu : Ppu) (address : UInt16) : Option Screen :=
  if ppu.beam.OnPixel then do
    let colour ← ppu.palette.read? ppu.mask address
    let back ← storeAt? ppu.screen.back
      (256 * ppu.beam.line.val + (ppu.beam.dot.val - 1)) colour
    return { ppu.screen with back }
  else some ppu.screen

/-- A pixel finds its place on the screen, if the beam is on the screen. -/
theorem draw?_eq (ppu : Ppu) (address : UInt16) :
    ppu.draw? address = some
      (if onPixel : ppu.beam.OnPixel then
        ppu.screen.draw ppu.beam onPixel (ppu.palette.read ppu.mask address)
      else ppu.screen) := by
  rw [draw?]
  split
  · rename_i hPixel
    have hStore := storeAt?_eq ppu.screen.back (Screen.index ppu.beam hPixel).isLt
      (ppu.palette.read ppu.mask address)
    simp only [Palette.read?_eq, Option.bind_eq_bind, Option.bind_some]
    exact congrArg (Option.bind · _) hStore
  · rfl

section Dot

variable {memory? : UInt16 → Option UInt8} {memory : UInt16 → UInt8}
  (hMemory : ∀ address, memory? address = some (memory address))

def render? (ppu : Ppu) (memory? : UInt16 → Option UInt8) : Option Ppu := do
  let beam := ppu.beam
  let background := ppu.background.reload beam
  let layers :=
    if beam.OnPixel then
      Layers.masked ppu.mask beam.column (background.pixel ppu.scroll.fineX) ppu.sprites.pixel
    else {}
  let found ← ppu.lineSprites.tick? beam ppu.control ppu.oam
  let patternAddress ← nextPatternAddress? ppu.patternAddress beam ppu.control ppu.scroll
    background ppu.lineSprites
  let sprites ← ppu.sprites.fetch? beam ppu.lineSprites memory? patternAddress
  let fetched ← background.fetch? beam ppu.scroll memory? patternAddress
  let screen ← ppu.draw? layers.address
  return { ppu with
    status.spriteZeroHit := ppu.status.spriteZeroHit || layers.hitsZero beam.column
    status.spriteOverflow := ppu.status.spriteOverflow || found.2
    scroll := ppu.scroll.tick beam
    oamAddress :=
      if beam.OnFetchLine ∧ SpriteUnits.Fetches beam.dot.val then 0 else ppu.oamAddress
    lineSprites := found.1
    sprites := sprites.shift beam
    background := fetched.shift beam
    patternAddress
    screen }

def drawBackdrop? (ppu : Ppu) : Option Ppu := do
  let screen ← ppu.draw? 0
  return { ppu with screen }

def finishDot? (ppu : Ppu) : Option Ppu := do
  let beam ← ppu.beam.next? ppu.mask.rendering
  return { ppu.finishDot with beam }

def tick? (ppu : Ppu) (memory? : UInt16 → Option UInt8) : Option Ppu := do
  let drawn ← if ppu.mask.rendering then ppu.render? memory? else ppu.drawBackdrop?
  drawn.finishDot?

def run? (ppu : Ppu) (memory? : UInt16 → Option UInt8) : (dots : Nat) → Option Ppu
  | 0 => some ppu
  | dots + 1 => do (← ppu.tick? memory?).run? memory? dots

theorem drawBackdrop?_eq (ppu : Ppu) : ppu.drawBackdrop? = some ppu.drawBackdrop := by
  rw [drawBackdrop?, draw?_eq, drawBackdrop]
  by_cases hPixel : ppu.beam.OnPixel
  · simp only [dif_pos hPixel]
    rfl
  · simp only [dif_neg hPixel]
    rfl

theorem finishDot?_eq (ppu : Ppu) : ppu.finishDot? = some ppu.finishDot := by
  rw [finishDot?, Beam.next?_eq]
  rfl

include hMemory

theorem render?_eq (ppu : Ppu) : ppu.render? memory? = some (ppu.render memory) := by
  simp only [render?, LineSprites.tick?_eq, nextPatternAddress?_eq,
    SpriteUnits.fetch?_eq hMemory, Background.fetch?_eq hMemory, draw?_eq, Option.bind_eq_bind,
    Option.bind_some]
  rfl

/-- Every dot finds all that it uses. -/
theorem tick?_eq (ppu : Ppu) : ppu.tick? memory? = some (ppu.tick memory) := by
  rw [tick?, render?_eq hMemory, drawBackdrop?_eq, tick]
  cases ppu.mask.rendering with
  | true => exact finishDot?_eq _
  | false => exact finishDot?_eq _

/-- Any number of dots finds all that it uses. -/
theorem run?_eq (ppu : Ppu) (dots : Nat) : ppu.run? memory? dots = some (ppu.run memory dots) := by
  induction dots generalizing ppu with
  | zero => rfl
  | succ dots ih =>
      rw [run?, tick?_eq hMemory]
      exact ih (ppu.tick memory)

omit hMemory

/-- A read of a register. Only two of them work on a memory. -/
def read? (ppu : Ppu) (memory? : UInt16 → Option UInt8) (register : Register) : Option Ppu :=
  match register with
  | .status =>
    some { ppu with
      latch := ppu.status.toByte ||| (ppu.latch &&& 0x1f)
      scroll := ppu.scroll.resetToggle
      status.verticalBlank := false }
  | .oamData => do return { ppu with latch := ← ppu.oam.readByte? ppu.oamAddress }
  | .data =>
    let address := ppu.scroll.current.busAddress
    let scroll := ppu.scroll.increment ppu.control.increment
    if address < paletteStart then do
      return { ppu with latch := ppu.readBuffer, readBuffer := ← memory? address, scroll }
    else do
      let colour ← ppu.palette.read? ppu.mask address
      let readBuffer ← memory? (address - 0x1000)
      return { ppu with latch := (ppu.latch &&& 0xc0) ||| colour, readBuffer, scroll }
  | .control | .mask | .oamAddress | .scroll | .address => some ppu

def write? (ppu : Ppu) (register : Register) (value : UInt8) : Option Ppu :=
  match register with
  | .oamData => do
    let oam ← ppu.oam.setByte? ppu.oamAddress value
    return { ppu with latch := value, oam, oamAddress := ppu.oamAddress + 1 }
  | .data =>
    let address := ppu.scroll.current.busAddress
    let scroll := ppu.scroll.increment ppu.control.increment
    if address < paletteStart then some { ppu with latch := value, scroll }
    else do
      return { ppu with latch := value, palette := ← ppu.palette.write? address value, scroll }
  | .control | .mask | .status | .oamAddress | .scroll | .address => some (ppu.write register value)

include hMemory

theorem read?_eq (ppu : Ppu) (register : Register) :
    ppu.read? memory? register = some (ppu.read memory register) := by
  cases register with
  | oamData =>
      rw [read?, Oam.readByte?_eq]
      rfl
  | data =>
      simp only [read?, read, hMemory, Palette.read?_eq]
      split <;> rfl
  | _ => rfl

omit hMemory

theorem write?_eq (ppu : Ppu) (register : Register) (value : UInt8) :
    ppu.write? register value = some (ppu.write register value) := by
  cases register with
  | oamData =>
      rw [write?, Oam.setByte?_eq]
      rfl
  | data =>
      simp only [write?, write, Palette.write?_eq]
      split <;> rfl
  | _ => rfl

end Dot

/-- Nothing that happens to the unit makes it find too many sprites. -/
theorem count_apply_le (ppu : Ppu) (action : Action) (hCount : ppu.lineSprites.count ≤ 8) :
    (ppu.apply action).lineSprites.count ≤ 8 := by
  cases action with
  | dot memory =>
      simp only [apply, tick]
      split
      · exact LineSprites.count_tick_le _ _ _ _ hCount
      · rw [drawBackdrop]
        split <;> exact hCount
  | read memory register =>
      have hSame : (ppu.read memory register).lineSprites = ppu.lineSprites := by
        cases register <;> simp only [read]
        split <;> rfl
      rw [apply, hSame]
      exact hCount
  | write register value =>
      have hSame : (ppu.write register value).lineSprites = ppu.lineSprites := by
        cases register <;> rfl
      rw [apply, hSame]
      exact hCount
  | poll => exact hCount

end Ppu

end Nes
