import TvmAssembly.Walk.Visitor

/-!
# Recording visitors

Two visitors that only look: one writes down all that it meets, the other counts instructions.
-/

namespace TvmAssembly.Visitor

/-- Records the events of a walk that does not go into the containers of `skip`. -/
def recorder (skip : Container → Bool) : Visitor (Array Event) where
  leaf l events := events.push (.leaf l)
  enter c events := (events.push (.enter c), !skip c)
  leave b events := events.push (.leave b)

/-- Counts the instructions that are written as mnemonic lines, returns and throws apart. -/
def instructionCounter : Visitor Nat where
  leaf
    | .instruction _, n => n + 1
    | _, n => n

end TvmAssembly.Visitor
