import TvmAssembly.Fault
import TvmAssembly.Mnemonic
import TvmAssembly.StackEffect
import TvmAssembly.Text.Numeral
import TvmAssembly.Text.Occurrence

/-!
# Opcode families

Opcodes whose signature follows from how they are spelled or from their argument: the writing
dictionary operations `DICT[I|U]SET[REF|B]`, `DICT[I|U]REPLACE[REF|B]` and `DICT[I|U]ADD[REF|B]`,
the tuple operations, whose argument counts the values, and the shifts, which take the distance from
the stack if no argument gives it.
-/

namespace TvmAssembly.Opcode

inductive Family where
  | dictSet
  /-- `REPLACE` and `ADD`, which also tell whether they wrote. -/
  | dictUpdate
  | tuple
  | untuple
  | shift
  | mulShift
deriving DecidableEq, Repr

/-- What follows `DICT` and the letter for the type of the key. -/
def dictStem? (opcode : List Char) : Option (List Char) :=
  (Text.behind? "DICT".toList opcode).map fun
    | 'I' :: stem => stem
    | 'U' :: stem => stem
    | stem => stem

/-- Whether the opcode is the dictionary operation `verb`, for a value of any form. -/
def isDict (verb : String) (opcode : List Char) : Bool :=
  match (dictStem? opcode).bind (Text.behind? verb.toList) with
  | some form => form = [] || form = "REF".toList || form = "B".toList
  | none => false

namespace Family

def ofOpcode? (opcode : String) : Option Family :=
  if isDict "SET" opcode.toList then some dictSet
  else if isDict "REPLACE" opcode.toList || isDict "ADD" opcode.toList then some dictUpdate
  else if opcode = "TUPLE" then some tuple
  else if opcode = "UNTUPLE" then some untuple
  else if opcode = "LSHIFT" || opcode = "RSHIFT" then some shift
  else if opcode = "MULRSHIFT" then some mulShift
  else none

/-- The argument of a tuple operation. -/
def count (m : Mnemonic) (line : String) : Except Fault UInt32 :=
  match m.arg with
  | none => .error (.countMissing m.opcode line)
  | some arg =>
    match Text.word? arg with
    | some n => .ok n
    | none => .error (.countUnreadable m.opcode arg)

def effect (m : Mnemonic) (line : String) : Family → Except Fault StackEffect
  | dictSet => .ok ⟨4, 1⟩
  | dictUpdate => .ok ⟨4, 2⟩
  | tuple => (count m line).map (⟨·, 1⟩)
  | untuple => (count m line).map (⟨1, ·⟩)
  | shift => .ok ⟨if m.arg.isSome then 1 else 2, 1⟩
  | mulShift => .ok ⟨if m.arg.isSome then 2 else 3, 1⟩

end Family

end TvmAssembly.Opcode
