/-!
# Log records

## Main definitions

* `Level`, `Record` — a message and its weight.
* `Log` — the records made so far, the oldest first.
-/

namespace Whitespace

/-- The weight of a message, the lightest first. -/
inductive Level where
  | debug
  | info
  | warning
  | error
  deriving DecidableEq, Repr

namespace Level

/-- The name of a level. -/
def name : Level → String
  | debug => "DEBUG"
  | info => "INFO"
  | warning => "WARNING"
  | error => "ERROR"

/-- The place of a level in the order of weight. -/
def weight : Level → Nat
  | debug => 0
  | info => 1
  | warning => 2
  | error => 3

end Level

/-- One message. -/
structure Record where
  level : Level
  message : String
  deriving DecidableEq, Repr

/-- Records in the order in which they were made. -/
abbrev Log := Array Record

/-- Add a record. -/
def Log.add (log : Log) (r : Record) : Log := log.push r

/-- Add a message for those who look for details. -/
def Log.debug (log : Log) (message : String) : Log := log.add ⟨.debug, message⟩

/-- The records of at least the weight of `threshold`, a line each. -/
def Log.lines (threshold : Level) (log : Log) : String :=
  log.foldl (fun text r =>
    if threshold.weight ≤ r.level.weight then text ++ r.level.name ++ ":root:" ++ r.message ++ "\n"
    else text) ""

end Whitespace
