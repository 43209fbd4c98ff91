import SchemaCast.Context
import SchemaCast.ErrorLog
import SchemaCast.Violation

/-!
# Runs that keep a log

A `Check` is a run that also records messages. `Check.within` works below a segment and comes back
in every case, and `Check.trial` runs a check on a log of its own, so that nothing of it is seen
outside but the log that it returns.
-/
namespace SchemaCast

/-- A run with a log. -/
abbrev Check (σ α : Type) := ExceptT Fault (StateM (ErrorLog × σ)) α

namespace Check

variable {σ α : Type}

/-- A run that leaves the log alone. -/
def ofRun (run : Run σ α) : Check σ α := fun state =>
  let (result, registry) := run state.2
  (result, state.1, registry)

/-- Record a violation at the current path. -/
def record (violation : Violation) : Check σ Unit := fun state =>
  (.ok (), state.1.record violation.message, state.2)

/-- Record violations in a row. -/
def recordAll (violations : List Violation) : Check σ Unit := violations.forM record

/-- Record a violation if a condition holds. -/
def recordIf (condition : Bool) (violation : Violation) : Check σ Unit :=
  if condition then record violation else pure ()

/-- Work below a segment. -/
def within (segment : Segment) (check : Check σ α) : Check σ α := fun state =>
  let (result, log, registry) := check (state.1.enter segment, state.2)
  (result, log.leave, registry)

/-- Run a check on a log of its own. -/
def trial (check : Check σ Unit) : Run σ ErrorLog := fun registry =>
  let (result, log, registry) := check ({}, registry)
  (result.map fun _ => log, registry)

end Check

end SchemaCast
