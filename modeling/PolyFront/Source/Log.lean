import PolyFront.Source.Diagnostic

/-!
# Logs of diagnostics

A log keeps diagnostics in the order they were reported and counts its errors
and warnings.  A unit's log can be appended to a log shared by several units.
-/

namespace PolyFront

structure Log where
  items : List Diagnostic
  errors : Nat
  warnings : Nat
deriving DecidableEq, Repr, Inhabited

namespace Log

def empty : Log := ⟨[], 0, 0⟩

def report (log : Log) (diagnostic : Diagnostic) : Log where
  items := log.items ++ [diagnostic]
  errors := log.errors + (if diagnostic.severity = .error then 1 else 0)
  warnings := log.warnings + (if diagnostic.severity = .warning then 1 else 0)

/-- All diagnostics of a unit, as one block after those already there. -/
def append (shared unit : Log) : Log where
  items := shared.items ++ unit.items
  errors := shared.errors + unit.errors
  warnings := shared.warnings + unit.warnings

def hasErrors (log : Log) : Bool := decide (0 < log.errors)

def hasWarnings (log : Log) : Bool := decide (0 < log.warnings)

/-- Report an error about a range of one source. -/
def reportError (log : Log) (uri : String) (range : Range) (message : String)
    (related : List Note) : Log :=
  log.report ⟨⟨uri, range⟩, .error, message, related⟩

@[simp]
theorem items_report (log : Log) (diagnostic : Diagnostic) :
    (log.report diagnostic).items = log.items ++ [diagnostic] := rfl

end Log

end PolyFront
