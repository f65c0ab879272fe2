/-!
# Stack effects

How many values an instruction takes from the stack, and how many it returns to it.
-/

namespace TvmAssembly

structure StackEffect where
  take : UInt32
  ret : UInt32
deriving DecidableEq, Repr

namespace StackEffect

def none : StackEffect := ⟨0, 0⟩

/-- The net change of the stack's height. -/
def delta (e : StackEffect) : Int :=
  e.ret.toNat - e.take.toNat

end StackEffect

/-- What is known of an instruction without running it: its effect on the stack, and whether it
has any other. -/
structure Signature where
  effect : StackEffect
  isPure : Bool
deriving DecidableEq, Repr

end TvmAssembly
