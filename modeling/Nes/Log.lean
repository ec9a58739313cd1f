/-! Messages that the machine and the program leave for a reader. A log keeps the records at or
above its threshold, in the order in which they were added. -/

namespace Nes

/-- How urgent a message is, from the least to the most urgent. -/
inductive Level where
  | trace
  | info
  | warn
  | critical
  deriving DecidableEq, Repr

namespace Level

/-- The position of a level in the order of urgency. -/
def rank : Level → Nat
  | trace => 0
  | info => 1
  | warn => 2
  | critical => 3

def name : Level → String
  | trace => "trace"
  | info => "info"
  | warn => "warn"
  | critical => "critical"

end Level

structure Record where
  level : Level
  text : String
  deriving DecidableEq, Repr

/-- The messages kept so far, oldest first, and the least urgent level that is still kept. -/
structure Log where
  threshold : Level := .info
  records : Array Record := #[]

namespace Log

/-- A log keeps the levels from its threshold upwards. -/
def keeps (log : Log) (level : Level) : Bool :=
  decide (log.threshold.rank ≤ level.rank)

/-- Adds a message at the end. A message below the threshold leaves the log as it was. -/
def add (log : Log) (level : Level) (text : String) : Log :=
  if log.keeps level then { log with records := log.records.push ⟨level, text⟩ } else log

/-- Forgets the messages and keeps the threshold. -/
def clear (log : Log) : Log :=
  { log with records := #[] }

end Log

end Nes
