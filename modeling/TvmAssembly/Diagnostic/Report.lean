import TvmAssembly.Diagnostic.Basic
import TvmAssembly.Log

/-!
# Reports

Diagnostics are put on paper by a renderer that is not a part of the library. What it gets is a
report with one label, and the label has the offsets of the span as they are. A renderer may fail;
then the message has to do, or the log.
-/

namespace TvmAssembly

inductive Color where
  | red
  | yellow
deriving DecidableEq, Repr

def Severity.color : Severity → Color
  | error => .red
  | warning => .yellow

/-- A mark on the source, from the offset `first` up to `past`. -/
structure Label where
  origin : String
  first : Nat
  past : Nat
  message : String
  color : Color
deriving DecidableEq, Repr

/-- Whether the offset is under the label. -/
def Label.covers (l : Label) (offset : Nat) : Bool :=
  l.first ≤ offset && offset < l.past

structure Report where
  severity : Severity
  origin : String
  offset : Nat
  message : String
  label : Label
  notes : List String
  help : Option String
  isColored : Bool
deriving DecidableEq, Repr

/-- What is written for a report about a source, if all of it can be. -/
abbrev Renderer := Report → String → Option String

namespace Diagnostic

/-- The origin names where the source came from. -/
def report (d : Diagnostic) (origin : String) (isColored : Bool) : Report where
  severity := d.severity
  origin := origin
  offset := d.span.start.toNat
  message := d.message
  label :=
    { origin := origin
      first := d.span.start.toNat
      past := d.span.stop.toNat
      message := d.message
      color := d.severity.color }
  notes := d.notes
  help := d.help
  isColored := isColored

def renderWith (put : Renderer) (d : Diagnostic) (origin source : String) : String :=
  (put (d.report origin false) source).getD d.message

/-- Several diagnostics about one source, in colors and one below the other. Those that cannot be
written are logged. -/
def renderAllWith (put : Renderer) (ds : List Diagnostic) (origin source : String) :
    String × List LogEntry :=
  let rendered := ds.map fun d => (d, put (d.report origin true) source)
  (String.join (rendered.filterMap Prod.snd),
    (rendered.filter fun r => r.2.isNone).map fun r => .notRendered r.1.message)

end Diagnostic

end TvmAssembly
