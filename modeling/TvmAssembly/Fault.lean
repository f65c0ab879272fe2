import TvmAssembly.Text.Numeral
import TvmAssembly.Tree.Kinds

/-!
# Faults

Why a node is not built. Every fault but one is a request that the machine cannot encode; the one
left is a mnemonic whose stack effect nobody knows. The wording is kept here in one place.
-/

namespace TvmAssembly

/-- An operand of a factory and the values it may take, all of them bytes. -/
structure Operand where
  factory : String
  name : String
  low : UInt32
  high : UInt32
  high_le : high ≤ 255 := by decide
deriving DecidableEq

inductive Fault where
  | outOfRange (operand : Operand) (value : UInt32)
  /-- Verbatim assembly without a line. -/
  | noLines
  | missingArm (kind : ConditionalKind)
  | surplusArm (kind : ConditionalKind)
  /-- A branching frame on an arm of a two-armed conditional. -/
  | branchingArm (kind : ConditionalKind) (frame : Frame)
  /-- A frame that encodes another branch than the conditional takes. -/
  | contraryFrame (kind : ConditionalKind) (frame : Frame) (encoded : ConditionalKind)
  /-- A nested cell where a literal has to reach the stack. -/
  | strayCell
  /-- A block of code in an inline slice. -/
  | codeInSlice
  | emptyLiteral (kind : DataKind)
  | namelessFunction
  /-- An opcode that needs a count, in a line without an argument. -/
  | countMissing (opcode line : String)
  | countUnreadable (opcode arg : String)
  | unresolvable (opcode line : String)
deriving DecidableEq

namespace Fault

def isUnresolvable : Fault → Bool
  | unresolvable _ _ => true
  | _ => false

/-- What was asked for: a factory, or the mnemonic that has no rule. -/
def construct : Fault → String
  | outOfRange operand _ => operand.factory
  | noLines => "make_hardcode"
  | missingArm _ | surplusArm _ | branchingArm _ _ | contraryFrame _ _ _ => "make_if"
  | strayCell | codeInSlice => "make_data_push"
  | emptyLiteral kind => if kind = .nestedCell then "make_cell" else "make_data_push"
  | namelessFunction => "function"
  | countMissing _ _ | countUnreadable _ _ => "resolve_opcode"
  | unresolvable opcode _ => opcode

/-- What is wrong with it. Of an unresolvable mnemonic only the line can be told. -/
def detail : Fault → String
  | outOfRange operand value =>
    operand.name ++ " " ++ Text.decimal value.toNat ++ " outside [" ++
      Text.decimal operand.low.toNat ++ ", " ++ Text.decimal operand.high.toNat ++ "]"
  | noLines => "no assembly lines"
  | missingArm kind => s!"{kind.name} requires a false arm"
  | surplusArm kind => s!"{kind.name} cannot carry a false arm"
  | branchingArm kind frame => s!"{kind.name} arm cannot be a {frame.token} frame"
  | contraryFrame kind frame encoded =>
    s!"{frame.token} frame encodes {encoded.name}, not {kind.name}"
  | strayCell => "a .cell only appears inside another push's child block, use make_cell"
  | codeInSlice => "an inline slice cannot own a code block"
  | emptyLiteral kind => s!"{kind.token} without data"
  | namelessFunction => "empty function name"
  | countMissing opcode line => s!"`{opcode}` requires a numeric argument: `{line}`"
  | countUnreadable opcode arg => s!"`{opcode}` argument `{arg}` is not a non-negative integer"
  | unresolvable _ line => line

def message (f : Fault) : String :=
  if f.isUnresolvable then s!"unresolvable construct `{f.construct}` in `{f.detail}`"
  else s!"invariant violation in {f.construct}: {f.detail}"

/-- The line of assembly that the fault is about, empty if it is about none. -/
def sourceLine : Fault → String
  | unresolvable _ line => line
  | _ => ""

/-- Two steps succeed together if each of them does. -/
theorem bind_eq_ok_iff {α β : Type} {x : Except Fault α} {f : α → Except Fault β} {b : β} :
    (x >>= f) = .ok b ↔ ∃ a, x = .ok a ∧ f a = .ok b := by
  cases x <;> simp [bind, Except.bind]

theorem map_eq_ok_iff {α β : Type} {x : Except Fault α} {f : α → β} {b : β} :
    x.map f = .ok b ↔ ∃ a, x = .ok a ∧ f a = b := by
  cases x <;> simp [Except.map]

theorem map_eq_error_iff {α β : Type} {x : Except Fault α} {f : α → β} {fault : Fault} :
    x.map f = .error fault ↔ x = .error fault := by
  cases x <;> simp [Except.map]

/-- A check succeeds and the step behind it succeeds. -/
theorem check_eq_ok_iff {β : Type} {x : Except Fault Unit} {f : Unit → Except Fault β} {b : β} :
    (x >>= f) = .ok b ↔ x = .ok () ∧ f () = .ok b := by
  rw [bind_eq_ok_iff]
  exact ⟨fun ⟨_, h⟩ => h, fun h => ⟨(), h⟩⟩

end Fault

end TvmAssembly
