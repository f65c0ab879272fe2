import TvmAssembly.StackEffect
import TvmAssembly.Text.Numeral

/-!
# Global variables

The instructions that read and write the numbered global variables.
-/

namespace TvmAssembly

inductive GlobalMode where
  /-- Pushes the variable's value. -/
  | get
  /-- Pops the top into the variable. -/
  | set
  /-- Stores the top and leaves the previous value in its place. -/
  | exchange
deriving DecidableEq, Repr

structure GlobalOp where
  mode : GlobalMode
  index : UInt8
deriving DecidableEq, Repr

namespace GlobalMode

def index (m : GlobalMode) : Nat := m.ctorIdx

def name : GlobalMode → String
  | get => "Get"
  | set => "Set"
  | exchange => "Exchange"

end GlobalMode

namespace GlobalOp

/-- The largest index that fits into an instruction. A larger one is taken from the stack. -/
def shortLimit : UInt8 := 31

def effect (g : GlobalOp) : StackEffect :=
  match g.mode with
  | .get => ⟨0, 1⟩
  | .set => ⟨1, 0⟩
  | .exchange => ⟨1, 1⟩

/-- The access `verb` to a variable. Its long form is the verb with `VAR`. -/
def access (verb : String) (index : UInt8) : String :=
  let number := Text.decimal index.toNat
  if index ≤ shortLimit then verb ++ " " ++ number
  else "PUSHINT " ++ number ++ "\n" ++ verb ++ "VAR"

def text (g : GlobalOp) : String :=
  match g.mode with
  | .get => access "GETGLOB" g.index
  | .set => access "SETGLOB" g.index
  | .exchange => access "GETGLOB" g.index ++ "\nSWAP\n" ++ access "SETGLOB" g.index

end GlobalOp

end TvmAssembly
