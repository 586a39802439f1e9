import PolyFront.Source.Range

/-!
# Diagnostics

A diagnostic is a message about a range of a source, with related notes.  It is
rendered as a heading, followed by the source line it points into and a caret
under the column.
-/

namespace PolyFront

inductive Severity where
  | error
  | warning
  | information
  | hint
deriving DecidableEq, Repr, Inhabited

/-- The word a heading uses for a severity. -/
def Severity.label : Severity → String
  | .error => "error"
  | .warning => "warning"
  | .information => "info"
  | .hint => "hint"

/-- A range of the source with the given identifier. -/
structure Location where
  uri : String
  range : Range
deriving DecidableEq, Repr, Inhabited

/-- A secondary place that helps to understand a diagnostic. -/
structure Note where
  location : Location
  message : String
deriving DecidableEq, Repr, Inhabited

structure Diagnostic where
  location : Location
  severity : Severity
  message : String
  related : List Note
deriving DecidableEq, Repr, Inhabited

namespace Diagnostic

/-- `path:line:column: severity: message`, without the position when there is none. -/
def heading (path : String) (position : Option (Nat × Nat)) (severity : Severity)
    (message : String) : String :=
  let place := match position with
    | some (line, column) => toString line ++ ":" ++ toString column ++ ":"
    | none => ""
  path ++ ":" ++ place ++ " " ++ severity.label ++ ": " ++ message

/-- A run of blanks. -/
def blanks (count : Nat) : String := String.ofList (List.replicate count ' ')

/-- A heading above the source line it points into, with a caret under the
one-based column. -/
def excerpt (line column : Nat) (path text : String) (severity : Severity)
    (message : String) : String :=
  let padding := blanks (toString line).length
  "\n".intercalate
    [heading path (some (line, column)) severity message,
      padding ++ " |",
      toString line ++ " | " ++ text,
      padding ++ " | " ++ blanks (column - 1) ++ "^"]

/-- Drop one carriage return at the end of a line. -/
def dropReturn (line : List Char) : List Char :=
  match line.reverse with
  | '\r' :: rest => rest.reverse
  | _ => line

/-- The characters up to the first line feed, and those after it when there is one. -/
def splitLine : List Char → List Char × Option (List Char)
  | [] => ([], none)
  | '\n' :: rest => ([], some rest)
  | c :: rest =>
    let split := splitLine rest
    (c :: split.1, split.2)

theorem length_of_splitLine {text rest : List Char} (h : (splitLine text).2 = some rest) :
    rest.length < text.length := by
  fun_induction splitLine text with
  | case1 => simp at h
  | case2 tail => simp_all
  | case3 c tail hc split ih =>
    have := ih h
    simp only [List.length_cons]
    omega

/-- The lines of a text: a line feed ends a line, a carriage return before it
does not belong to the line, and nothing follows the last line feed. -/
def lines (text : List Char) : List (List Char) :=
  if text = [] then [] else
    match _h : (splitLine text).2 with
    | none => [(splitLine text).1]
    | some rest => dropReturn (splitLine text).1 :: lines rest
termination_by text.length
decreasing_by exact length_of_splitLine _h

/-- A message at a place, against the text of the source `uri`. Places in other
sources, and lines that the text does not have, give a heading only. -/
def renderAt (uri source : String) (location : Location) (severity : Severity)
    (message : String) : String :=
  let line := location.range.start.line
  let column := location.range.start.character + 1
  let text := if location.uri = uri then (lines source.toList)[line]? else none
  match text with
  | some text =>
    excerpt (line + 1) column location.uri (String.ofList text) severity message
  | none => heading location.uri (some (line + 1, column)) severity message

/-- The diagnostic and its notes, each rendered against the text of the source the
diagnostic was reported in. -/
def render (diagnostic : Diagnostic) (source : String) : String :=
  let at_ := renderAt diagnostic.location.uri source
  "\n".intercalate <|
    at_ diagnostic.location diagnostic.severity diagnostic.message ::
      diagnostic.related.map fun note => at_ note.location .information note.message

end Diagnostic

end PolyFront
