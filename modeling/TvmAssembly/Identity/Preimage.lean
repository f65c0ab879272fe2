import TvmAssembly.Bytes
import TvmAssembly.Walk.Visitor

/-!
# What a content identity covers

A tree is written down as a byte string that a hash is then taken of. A visitor writes it, with a
mark for each event of the walk. Annotations have none: locations, comments and the names of
functions leave no trace. Texts and lists of lines come with their length.
-/

namespace TvmAssembly.Identity

/-- The version of the format, the first byte of each string. -/
def version : UInt8 := 1

/-- A length in bytes or in elements, as a word. -/
def size (n : Nat) : Bytes := Bytes.ofWord (UInt32.ofNat n)

def text (s : String) : Bytes := size s.utf8ByteSize ++ Bytes.ofText s

def optional : Option String → Bytes
  | none => [0]
  | some s => 1 :: text s

def effect (e : StackEffect) : Bytes := Bytes.ofWord e.take ++ Bytes.ofWord e.ret

def signature (s : Signature) : Bytes := effect s.effect ++ Bytes.ofBool s.isPure

/-- A mnemonic line without its comment. -/
def code (m : Mnemonic) : Bytes := text m.opcode ++ optional m.arg

def position (index : Nat) : UInt8 := UInt8.ofNat index

def leafMark : Leaf → Bytes
  | .location _ => []
  | .stack op =>
    let (i, j, k) := op.operands
    [0x01, position op.index, i, j, k]
  | .global op => [0x02, position op.mode.index, op.index]
  | .instruction i => 0x03 :: (code i.line ++ signature i.signature)
  | .verbatim v => 0x04 :: (size v.lines.length ++ v.lines.flatMap text ++ signature v.signature)
  | .exit e => 0x05 :: (code e.line ++ effect e.effect)

/-- What is marked of a container is its own; what it holds follows. -/
def containerMark : Container → Bytes
  | .sealed s => 0x06 :: signature s.signature
  | .data d =>
    0x07 :: position d.kind.index :: (text d.text ++ Bytes.ofBool d.child.isSome)
  | .block b => [0x08, position b.frame.index]
  | .conditional c => [0x0A, position c.kind.index]
  | .repeatLoop l => [0x0B, position l.kind.index]
  | .whileLoop l => 0x0C :: Bytes.ofBool l.canBreak
  | .function f => 0x0D :: position f.kind.index :: effect f.effect
  | .program _ => []

/-- The end of a block, the only one that is marked. -/
def blockEnd : UInt8 := 0x09

/-- Writes the marks of a walk behind what is written already, and goes everywhere. -/
def encoder : Visitor (Array UInt8) where
  leaf l written := written ++ leafMark l
  enter c written := (written ++ containerMark c, true)
  leave _ written := written.push blockEnd

def blockPreimage (b : Block) : Bytes := (encoder.block b #[version]).toList

def functionPreimage (f : Function) : Bytes := (encoder.function f #[version]).toList

theorem encoder_goesEverywhere : encoder.GoesEverywhere := fun _ _ => rfl

/-- What the encoder adds for one event of a walk. -/
def mark : Event → Bytes
  | .leaf l => leafMark l
  | .enter c => containerMark c
  | .leave _ => [blockEnd]

theorem toList_foldl_encoder (events : List Event) (written : Array UInt8) :
    (events.foldl encoder.step written).toList = written.toList ++ events.flatMap mark := by
  induction events generalizing written with
  | nil => simp
  | cons e events ih =>
    have hstep : (encoder.step written e).toList = written.toList ++ mark e := by
      cases e <;> simp [Visitor.step, encoder, mark]
    rw [List.foldl_cons, ih, hstep, List.flatMap_cons, List.append_assoc]

theorem blockPreimage_eq (b : Block) : blockPreimage b = version :: b.events.flatMap mark := by
  rw [blockPreimage, Visitor.block_eq_foldl encoder_goesEverywhere, toList_foldl_encoder]
  rfl

theorem functionPreimage_eq (f : Function) :
    functionPreimage f = version :: f.events.flatMap mark := by
  rw [functionPreimage, Visitor.function_eq_foldl encoder_goesEverywhere, toList_foldl_encoder]
  rfl

/-- A program is not walked through: it is written as its pragmas and the identities of its
functions, which `functionId` gives. -/
def programPreimage (functionId : Function → Bytes) (p : Program) : Bytes :=
  [version, 0x0E] ++ size p.pragmas.length ++ p.pragmas.flatMap text ++
    size p.functions.length ++ p.functions.flatMap functionId

end TvmAssembly.Identity
