import TvmAssembly.Leaf.GlobalOp
import TvmAssembly.Leaf.StackOp
import TvmAssembly.Mnemonic

/-!
# Leaves

The nodes without a block of their own. All but a location stand for machine instructions.
-/

namespace TvmAssembly

/-- The source position of the instructions that follow. -/
structure Location where
  file : String
  line : UInt32
deriving DecidableEq, Repr

/-- An instruction written as a mnemonic line, with the signature found for it. -/
structure Instruction where
  line : Mnemonic
  signature : Signature
deriving DecidableEq, Repr

/-- An instruction that returns or throws. -/
structure Exit where
  line : Mnemonic
  effect : StackEffect
deriving DecidableEq, Repr

/-- Assembly passed through as it is, with a signature it only declares. -/
structure Verbatim where
  lines : List String
  signature : Signature
deriving DecidableEq, Repr

inductive Leaf where
  | location (l : Location)
  | stack (op : StackOp)
  | global (op : GlobalOp)
  | instruction (i : Instruction)
  | verbatim (v : Verbatim)
  | exit (e : Exit)
deriving DecidableEq, Repr

def Location.text (l : Location) : String :=
  ".loc " ++ l.file ++ ", " ++ Text.decimal l.line.toNat

namespace Leaf

def effect : Leaf → StackEffect
  | location _ => .none
  | stack op => op.effect
  | global op => op.effect
  | instruction i => i.signature.effect
  | verbatim v => v.signature.effect
  | exit e => e.effect

/-- Whether the leaf does nothing that its stack effect does not tell. -/
def isPure : Leaf → Bool
  | location _ | stack _ => true
  | global op => op.mode = .get
  | instruction i => i.signature.isPure
  | verbatim v => v.signature.isPure
  | exit _ => false

end Leaf

end TvmAssembly
