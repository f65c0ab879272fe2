import TvmAssembly.Leaf.Basic
import TvmAssembly.Opcode.Resolve

/-!
# Building the other leaves

Instructions and throws are built from a mnemonic line and take the signature that the line
resolves to. Returns are fixed, verbatim assembly only needs a line.
-/

namespace TvmAssembly.Build

def instruction (line : String) : Attempt Instruction :=
  let m := Mnemonic.parse line
  (Opcode.resolveMnemonic m line).map fun signature => ⟨m, signature⟩

def throwing (line : String) : Attempt Exit :=
  let m := Mnemonic.parse line
  (Opcode.resolveThrowMnemonic m line).map fun signature => ⟨m, signature.effect⟩

def ret : Exit := ⟨⟨"RET", none, none⟩, ⟨0, 0⟩⟩

def retIf : Exit := ⟨⟨"IFRET", none, none⟩, ⟨1, 0⟩⟩

def retIfNot : Exit := ⟨⟨"IFNOTRET", none, none⟩, ⟨1, 0⟩⟩

def verbatim (lines : List String) (signature : Signature) : Except Fault Verbatim :=
  if lines.isEmpty then .error .noLines else .ok ⟨lines, signature⟩

end TvmAssembly.Build
