import TvmAssembly.Diagnostic.Span
import TvmAssembly.Fault

/-!
# Diagnostics

A diagnostic says what is wrong, where, and what may help. Every fault has one: that of an
unresolvable mnemonic marks the opcode in its line, the others mark nothing.
-/

namespace TvmAssembly

inductive Severity where
  | error
  | warning
deriving DecidableEq, Repr

structure Diagnostic where
  severity : Severity
  message : String
  span : Span
  notes : List String
  help : Option String
deriving DecidableEq, Repr

namespace Diagnostic

def bare (severity : Severity) (message : String) (span : Span) : Diagnostic :=
  ⟨severity, message, span, [], none⟩

def withNote (d : Diagnostic) (note : String) : Diagnostic :=
  { d with notes := d.notes ++ [note] }

/-- A later help takes the place of an earlier one. -/
def withHelp (d : Diagnostic) (help : String) : Diagnostic :=
  { d with help := some help }

end Diagnostic

/-- The diagnostic of a fault, to be rendered with the fault's source line. There is none only if
the line is too long for the offsets of a span. -/
def Fault.diagnostic? (f : Fault) : Option Diagnostic :=
  if f.isUnresolvable then
    (Span.find? f.sourceLine f.construct).map fun span =>
      (Diagnostic.bare .error s!"no stack effect known for `{f.construct}`" span)
        |>.withNote "the opcode table has no entry or family rule for this mnemonic"
        |>.withHelp "add the opcode to the metadata table with its (take, ret) arity"
  else
    some <| (Diagnostic.bare .error s!"invariant violated in `{f.construct}`: {f.detail}" .dummy)
      |>.withNote "the code generator requested a node the target cannot encode"

end TvmAssembly
