import Nes.Proofs.Bus.Traffic

/-! Everything that happens to the bus, in any order: accesses of the processor, dots of the picture
unit, and controllers that are plugged in or taken away. -/

namespace Nes.Bus

/-- One thing that happens to the bus. -/
inductive Event where
  | access (access : Access)
  /-- Plugs in controllers whose buttons come from a source, or takes them away. -/
  | plug (source : Option (Nat → Pads))
  | dot

variable {β : Type} [Board β]

def happen (bus : Bus β) : Event → Bus β
  | .access access => bus.access access
  | .plug source => { bus with controllers.source := source }
  | .dot => bus.runPpu 1

def happenAll : Bus β → List Event → Bus β
  | bus, [] => bus
  | bus, event :: events => (bus.happen event).happenAll events

@[simp] theorem happenAll_nil (bus : Bus β) : bus.happenAll [] = bus := rfl

@[simp] theorem happenAll_cons (bus : Bus β) (event : Event) (events : List Event) :
    bus.happenAll (event :: events) = (bus.happen event).happenAll events := rfl

/-- What holds of a bus and is kept by every event holds after all of them. -/
theorem happenAll_induction {p : Bus β → Prop}
    (hStep : ∀ bus event, p bus → p (bus.happen event)) {bus : Bus β} (hStart : p bus)
    (events : List Event) : p (bus.happenAll events) := by
  induction events generalizing bus with
  | nil => exact hStart
  | cons event events ih => exact ih (hStep bus event hStart)

end Nes.Bus
