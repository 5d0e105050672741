/-!
# Settings

## Main definitions

* `Settings` — what the decoder and the machine can be told.
* `Settings.Patch`, `Settings.update` — a change of some of the settings.
-/

namespace Whitespace

/-- What a run can be told. -/
structure Settings where
  /-- Show detailed log records. -/
  verbose : Bool := false
  /-- Log the state of the machine after every instruction. -/
  trace : Bool := false
  /-- Show the decoded program before running it. -/
  dump : Bool := false
  /-- Take the return and the line feed of a pair as two terminators. -/
  splitCrlf : Bool := false
  /-- The value of heap cells that were never written. Without one, reading them is a fault. -/
  heapDefault : Option Int := none
  deriving DecidableEq, Repr

namespace Settings

/-- New values for some of the settings. -/
structure Patch where
  verbose : Option Bool := none
  trace : Option Bool := none
  dump : Option Bool := none
  splitCrlf : Option Bool := none
  heapDefault : Option Int := none
  deriving DecidableEq, Repr

/-- Take over the values that a patch gives, and keep the others. -/
def update (s : Settings) (p : Patch) : Settings where
  verbose := p.verbose.getD s.verbose
  trace := p.trace.getD s.trace
  dump := p.dump.getD s.dump
  splitCrlf := p.splitCrlf.getD s.splitCrlf
  heapDefault := p.heapDefault <|> s.heapDefault

end Settings

end Whitespace
