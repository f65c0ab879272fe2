import TvmAssembly.Log
import TvmAssembly.Opcode.Family
import TvmAssembly.Opcode.Table

/-!
# Resolution

The signature of a mnemonic line: that of the fixed table, else that of a family, else there is
none. Throwing opcodes have a table of their own, which only the lines of throws are looked up in.
-/

namespace TvmAssembly.Opcode

def lookup? (opcode : String) (table : List (String × Signature)) : Option Signature :=
  (table.find? fun row => row.1 = opcode).map (·.2)

/-- No member of a family is pure. -/
def resolveFamily (m : Mnemonic) (line : String) (family : Family) : Attempt Signature :=
  match family.effect m line with
  | .ok effect => ⟨.ok ⟨effect, false⟩, [.resolvedByFamily line ⟨effect, false⟩]⟩
  | .error fault => .silent (.error fault)

/-- Resolves `m`, which is what `line` parses to; the line itself is only reported. -/
def resolveMnemonic (m : Mnemonic) (line : String) : Attempt Signature :=
  match lookup? m.opcode fixedTable with
  | some signature => .silent (.ok signature)
  | none =>
    match Family.ofOpcode? m.opcode with
    | some family => resolveFamily m line family
    | none => ⟨.error (.unresolvable m.opcode line), [.noOpcodeRule line]⟩

def resolveThrowMnemonic (m : Mnemonic) (line : String) : Attempt Signature :=
  match lookup? m.opcode throwTable with
  | some signature => .silent (.ok signature)
  | none => ⟨.error (.unresolvable m.opcode line), [.noThrowRule line]⟩

def resolve (line : String) : Attempt Signature :=
  resolveMnemonic (Mnemonic.parse line) line

def resolveThrow (line : String) : Attempt Signature :=
  resolveThrowMnemonic (Mnemonic.parse line) line

end TvmAssembly.Opcode
