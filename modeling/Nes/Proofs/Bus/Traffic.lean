import Nes.Bus.Dma
import Nes.Proofs.Ppu.Activity

/-! Accesses to the processor bus one after the other, and what they do to the picture unit. -/

namespace Nes.Bus

open Ppu (Action Register)

/-- One access to the processor bus. -/
inductive Access where
  | read (address : UInt16)
  | write (address : UInt16) (value : UInt8)
  deriving DecidableEq, Repr

variable {β : Type} [Board β]

def access (bus : Bus β) : Access → Bus β
  | .read address => (bus.read address).2
  | .write address value => bus.write address value

def accessAll : Bus β → List Access → Bus β
  | bus, [] => bus
  | bus, access :: accesses => (bus.access access).accessAll accesses

/-- The register of the picture unit behind an address, if there is one. -/
def registerAt? (address : UInt16) : Option Register :=
  if address < 0x2000 then none
  else if address < 0x4000 then some (Register.ofAddress address)
  else none

/-- What an access does to the picture unit. -/
def actionsOf (bus : Bus β) : Access → List Action
  | .read address => ((registerAt? address).map (Action.read bus.video.read)).toList
  | .write address value => ((registerAt? address).map (Action.write · value)).toList

def activity : Bus β → List Access → List Action
  | _, [] => []
  | bus, access :: accesses => bus.actionsOf access ++ (bus.access access).activity accesses

/-- The accesses that copy bytes to sprite memory. -/
def copyTraffic (bus : Bus β) (source : UInt16) : (count : Nat) → List Access
  | 0 => []
  | count + 1 =>
    let (value, bus) := bus.read source
    .read source :: .write oamDataAddress value ::
      (bus.write oamDataAddress value).copyTraffic (source + 1) count

@[simp] theorem accessAll_nil (bus : Bus β) : bus.accessAll [] = bus := rfl

@[simp] theorem accessAll_cons (bus : Bus β) (access : Access) (accesses : List Access) :
    bus.accessAll (access :: accesses) = (bus.access access).accessAll accesses := rfl

theorem accessAll_append (bus : Bus β) (first second : List Access) :
    bus.accessAll (first ++ second) = (bus.accessAll first).accessAll second := by
  induction first generalizing bus with
  | nil => rfl
  | cons access first ih => exact ih (bus.access access)

/-- A copy to sprite memory is a read and a write for each of its bytes. -/
theorem accessAll_copyTraffic (bus : Bus β) (source : UInt16) (count : Nat) :
    bus.accessAll (bus.copyTraffic source count) = bus.copyToOam source count := by
  induction count generalizing bus source with
  | zero => rfl
  | succ count ih => exact ih _ _

theorem latch_write (bus : Bus β) (address : UInt16) (value : UInt8) :
    (bus.write address value).latch = value := by
  simp only [write]
  repeat' split
  all_goals rfl

/-- A write to work memory changes one byte, at all its mirrors. -/
theorem ram_write (bus : Bus β) (address : UInt16) (value : UInt8) :
    (bus.write address value).ram =
      if address < 0x2000 then bus.ram.set (ramIndex address) value (ramIndex address).isLt
      else bus.ram := by
  simp only [write]
  repeat' split
  all_goals rfl

/-- A store in video memory either spares the board or writes to its pattern memory. -/
theorem board_storeVideo (video : VideoMemory β) (address? : Option UInt16) (value : UInt8) :
    (storeVideo video address? value).cartridge.board = video.cartridge.board ∨
      ∃ store, (storeVideo video address? value).cartridge.board =
        Board.writeChr video.cartridge.board store value := by
  cases address? with
  | none => exact .inl rfl
  | some address =>
      simp only [storeVideo, VideoMemory.write]
      split
      · exact .inr ⟨_, rfl⟩
      · exact .inl rfl

/-- A write reaches program addresses of the board directly, and pattern addresses through the
registers of the picture unit. -/
theorem board_write (bus : Bus β) (address : UInt16) (value : UInt8) :
    let board := bus.video.cartridge.board
    let after := (bus.write address value).video.cartridge.board
    (address < 0x4020 ∧ (after = board ∨ ∃ store, after = Board.writeChr board store value)) ∨
      (0x4020 ≤ address ∧ after = Board.writePrg board address value) := by
  intro board after
  by_cases hBoard : 0x4020 ≤ address
  · refine .inr ⟨hBoard, ?_⟩
    have hRam : ¬address < 0x2000 := by grind
    have hPpu : ¬address < 0x4000 := by grind
    have hDma : address ≠ dmaAddress := by
      rintro rfl
      exact absurd hBoard (by decide)
    have hPad : address ≠ firstPadAddress := by
      rintro rfl
      exact absurd hBoard (by decide)
    simp only [after, write, if_neg hRam, if_neg hPpu, if_neg hDma, if_neg hPad,
      if_neg (UInt16.not_lt.mpr hBoard)]
    rfl
  · rw [UInt16.not_le] at hBoard
    refine .inl ⟨hBoard, ?_⟩
    simp only [after, write]
    split
    · exact .inl rfl
    split
    · exact board_storeVideo _ _ _
    split
    · exact .inl rfl
    split
    · exact .inl rfl
    exact .inl rfl

/-- The picture unit notices an access only through its own registers. -/
theorem ppu_access (bus : Bus β) (access : Access) :
    (bus.access access).ppu = bus.ppu.execute (bus.actionsOf access) := by
  cases access with
  | read address =>
      simp only [Bus.access, Bus.read, drive, actionsOf, registerAt?]
      by_cases hRam : address < 0x2000
      · simp only [if_pos hRam]
        rfl
      · by_cases hPpu : address < 0x4000
        · simp only [if_neg hRam, if_pos hPpu]
          rfl
        · simp only [if_neg hRam, if_neg hPpu]
          repeat' split
          all_goals rfl
  | write address value =>
      simp only [Bus.access, Bus.write, actionsOf, registerAt?]
      by_cases hRam : address < 0x2000
      · simp only [if_pos hRam]
        rfl
      · by_cases hPpu : address < 0x4000
        · simp only [if_neg hRam, if_pos hPpu]
          rfl
        · simp only [if_neg hRam, if_neg hPpu]
          repeat' split
          all_goals rfl

/-- The picture unit behind a number of accesses is that behind their activity. -/
theorem ppu_accessAll (bus : Bus β) (accesses : List Access) :
    (bus.accessAll accesses).ppu = bus.ppu.execute (bus.activity accesses) := by
  induction accesses generalizing bus with
  | nil => rfl
  | cons access accesses ih =>
      rw [accessAll_cons, ih, activity, Ppu.execute_append, ppu_access]

/-- Accesses are neither dots nor polls. -/
theorem not_dot_of_mem_actionsOf {bus : Bus β} {access : Access} {action : Action}
    (hAction : action ∈ bus.actionsOf access) :
    action.isDot = false ∧ action.isPoll = false := by
  cases access with
  | read address =>
      rw [actionsOf, Option.mem_toList, Option.map_eq_some_iff] at hAction
      obtain ⟨register, -, rfl⟩ := hAction
      exact ⟨rfl, rfl⟩
  | write address value =>
      rw [actionsOf, Option.mem_toList, Option.map_eq_some_iff] at hAction
      obtain ⟨register, -, rfl⟩ := hAction
      exact ⟨rfl, rfl⟩

/-- Accesses pass no time for the picture unit, and leave its interrupt to the poll. -/
theorem not_dot_of_mem_activity {bus : Bus β} {accesses : List Access} {action : Action}
    (hAction : action ∈ bus.activity accesses) :
    action.isDot = false ∧ action.isPoll = false := by
  induction accesses generalizing bus with
  | nil => simp [activity] at hAction
  | cons access accesses ih =>
      rw [activity, List.mem_append] at hAction
      cases hAction with
      | inl hHere => exact not_dot_of_mem_actionsOf hHere
      | inr hLater => exact ih hLater

/-- Accesses take no dots. -/
theorem dots_activity (bus : Bus β) (accesses : List Access) :
    Action.dots (bus.activity accesses) = 0 := by
  rw [Action.dots, List.countP_eq_zero]
  intro action hAction
  rw [(not_dot_of_mem_activity hAction).1]
  exact Bool.false_ne_true

end Nes.Bus
