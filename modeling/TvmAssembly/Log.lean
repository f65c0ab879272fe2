import TvmAssembly.StackEffect
import TvmAssembly.Fault

/-!
# The log

What the library reports while it works: how a line was resolved or that it was not, which requests
were brought to their shortest form, and which diagnostics could not be written. An attempt is an
outcome together with its log.
-/

namespace TvmAssembly

inductive LogLevel where
  | trace
  | debug
deriving DecidableEq, Repr

def LogLevel.name : LogLevel → String
  | trace => "TRACE"
  | debug => "DEBUG"

inductive LogEntry where
  /-- A family rule, not a table, gave the signature. -/
  | resolvedByFamily (line : String) (signature : Signature)
  | noOpcodeRule (line : String)
  | noThrowRule (line : String)
  /-- A block push of one value became a push. -/
  | singlePush (slot : UInt8)
  /-- A drop of the one value below the top became a pop. -/
  | singleDrop
  | notRendered (message : String)
deriving DecidableEq, Repr

namespace LogEntry

/-- What went wrong calls for debugging, all else is there to be traced. -/
def level : LogEntry → LogLevel
  | noOpcodeRule _ | noThrowRule _ | notRendered _ => .debug
  | resolvedByFamily _ _ | singlePush _ | singleDrop => .trace

def text : LogEntry → String
  | resolvedByFamily line ⟨⟨take, ret⟩, isPure⟩ =>
    s!"family rule resolved `{line}` to OpcodeInfo \x7b take: " ++ Text.decimal take.toNat ++
      ", ret: " ++ Text.decimal ret.toNat ++
      ", pure: " ++ (if isPure then "true" else "false") ++ " \x7d"
  | noOpcodeRule line => s!"no opcode rule for `{line}`"
  | noThrowRule line => s!"no THROW rule for `{line}`"
  | singlePush slot => s!"BLKPUSH 1, {Text.decimal slot.toNat} normalized to a single push"
  | singleDrop => "BLKDROP2 1, 1 normalized to POP s1"
  | notRendered message => s!"failed to render diagnostic: {message}"

end LogEntry

structure Attempt (α : Type) where
  outcome : Except Fault α
  log : List LogEntry

namespace Attempt

def silent {α : Type} (outcome : Except Fault α) : Attempt α := ⟨outcome, []⟩

def map {α β : Type} (f : α → β) (a : Attempt α) : Attempt β := ⟨a.outcome.map f, a.log⟩

end Attempt

end TvmAssembly
