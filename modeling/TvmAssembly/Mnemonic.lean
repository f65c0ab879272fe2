import TvmAssembly.Text.Blank

/-!
# Mnemonic lines

A line of assembly is an opcode, an optional argument and an optional comment:
`OPCODE [ARG] [;COMMENT]`. The comment starts at the first semicolon that no backslash escapes and
is kept character for character. Blanks around opcode and argument are dropped, those within the
argument stay.
-/

namespace TvmAssembly

structure Mnemonic where
  opcode : String
  arg : Option String
  comment : Option String
deriving DecidableEq, Repr

namespace Mnemonic

/-- Splits the code of a line from its comment. A backslash escapes the character behind it, so of
a run of backslashes every second one is itself escaped. -/
def splitComment (escaped : Bool) : List Char → List Char × Option (List Char)
  | [] => ([], none)
  | c :: cs =>
    if c = ';' ∧ escaped = false then ([], some cs)
    else
      let rest := splitComment (c = '\\' ∧ escaped = false) cs
      (c :: rest.1, rest.2)

/-- Splits code into its first word and the trimmed rest, if any of it remains. -/
def splitCode (code : List Char) : List Char × Option (List Char) :=
  let (opcode, rest) := Text.splitWord (Text.trim code)
  match Text.trim rest with
  | [] => (opcode, none)
  | arg => (opcode, some arg)

def parse (line : String) : Mnemonic :=
  let (code, comment) := splitComment false line.toList
  let (opcode, arg) := splitCode code
  ⟨String.ofList opcode, arg.map String.ofList, comment.map String.ofList⟩

/-- Opcode and argument, one space between them. -/
def code (m : Mnemonic) : String :=
  match m.arg with
  | some arg => m.opcode ++ " " ++ arg
  | none => m.opcode

/-- The whole line: the code, then the comment behind ` ;`. -/
def render (m : Mnemonic) : String :=
  match m.comment with
  | some comment => m.code ++ " ;" ++ comment
  | none => m.code

def withoutComment (m : Mnemonic) : Mnemonic :=
  { m with comment := none }

/-- Nothing of a line is lost at its comment but the semicolon. -/
theorem splitComment_eq (escaped : Bool) (cs : List Char) :
    cs = (splitComment escaped cs).1 ++
      ((splitComment escaped cs).2.elim [] (';' :: ·)) := by
  induction cs generalizing escaped with
  | nil => rfl
  | cons c cs ih =>
    rw [splitComment]
    split
    · next h => simp [h.1]
    · simpa using ih _

end Mnemonic

end TvmAssembly
