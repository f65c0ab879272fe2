import TvmAssembly.Leaf.Basic
import TvmAssembly.Tree.Kinds

/-!
# Code trees

A program owns functions, a function owns one block, and a block owns an ordered list of nodes. The
machine has no jump targets, only nested continuations, so a structural node carries the blocks it
runs. Containers also exist as values of their own (`Sealed`, `DataPush`, `Conditional`,
`RepeatLoop`, `WhileLoop`), each with its place in the tree.
-/

namespace TvmAssembly

mutual

/-- An ordered list of nodes in a frame. -/
structure Block where
  frame : Frame
  body : List Node

inductive Node where
  | leaf (l : Leaf)
  | sealed (block : Block) (signature : Signature)
  | data (kind : DataKind) (text : String) (child : Option Block)
  | block (b : Block)
  | conditional (kind : ConditionalKind) (trueArm : Block) (falseArm : Option Block)
  | repeatLoop (kind : RepeatKind) (body : Block)
  | whileLoop (condition body : Block) (canBreak : Bool)

end

/-- A block that is treated as one instruction with a declared signature. -/
structure Sealed where
  block : Block
  signature : Signature

/-- A literal. Where it encodes code, the code is kept as a child block. -/
structure DataPush where
  kind : DataKind
  text : String
  child : Option Block

/-- A branch with one arm or two. -/
structure Conditional where
  kind : ConditionalKind
  trueArm : Block
  falseArm : Option Block

structure RepeatLoop where
  kind : RepeatKind
  body : Block

structure WhileLoop where
  condition : Block
  body : Block
  canBreak : Bool

/-- A named unit that can be called, with its declared effect. -/
structure Function where
  name : String
  kind : FunctionKind
  effect : StackEffect
  block : Block

/-- Everything that is assembled together. The order of the functions is that of their layout. -/
structure Program where
  pragmas : List String
  functions : List Function

def Sealed.node (s : Sealed) : Node := .sealed s.block s.signature

def DataPush.node (d : DataPush) : Node := .data d.kind d.text d.child

def Conditional.node (c : Conditional) : Node := .conditional c.kind c.trueArm c.falseArm

def RepeatLoop.node (l : RepeatLoop) : Node := .repeatLoop l.kind l.body

def WhileLoop.node (l : WhileLoop) : Node := .whileLoop l.condition l.body l.canBreak

def WhileLoop.mnemonic (l : WhileLoop) : String := whileMnemonic l.canBreak

namespace Conditional

/-- The complement, which takes its branch exactly when `c` does not. The blocks keep their frames,
also a frame that encodes a branch on the other flag. -/
def invert (c : Conditional) : Conditional :=
  match c.falseArm with
  | some arm => ⟨c.kind.inverse, arm, some c.trueArm⟩
  | none => ⟨c.kind.inverse, c.trueArm, none⟩

/-- The blocks that the conditional chooses from. -/
def arms (c : Conditional) : List Block := c.trueArm :: c.falseArm.toList

@[simp]
theorem kind_invert (c : Conditional) : c.invert.kind = c.kind.inverse := by
  unfold invert
  split <;> rfl

@[simp]
theorem invert_invert (c : Conditional) : c.invert.invert = c := by
  obtain ⟨kind, trueArm, falseArm⟩ := c
  cases falseArm <;> simp [invert]

@[simp]
theorem isSome_falseArm_invert (c : Conditional) :
    c.invert.falseArm.isSome = c.falseArm.isSome := by
  unfold invert
  split <;> simp_all

@[simp]
theorem mem_arms_invert {c : Conditional} {b : Block} : b ∈ c.invert.arms ↔ b ∈ c.arms := by
  unfold invert arms
  split
  · next arm h => simp [h, or_comm]
  · next h => simp [h]

end Conditional

namespace Program

def empty : Program := ⟨[], []⟩

/-- The first function of the given name. -/
def function? (p : Program) (name : String) : Option Function :=
  p.functions.find? fun f => f.name = name

end Program

namespace Node

/-- The stack effect, where the node alone decides it. That of a block, a branch or a loop hangs on
how its blocks are run. -/
def effect? : Node → Option StackEffect
  | leaf l => some l.effect
  | sealed _ signature => some signature.effect
  | data kind _ _ => some (if kind = .nestedCell then .none else ⟨0, 1⟩)
  | block _ | conditional _ _ _ | repeatLoop _ _ | whileLoop _ _ _ => none

/-- Whether the node does nothing that its stack effect does not tell. -/
def isPure : Node → Bool
  | leaf l => l.isPure
  | sealed _ signature => signature.isPure
  | data _ _ _ => true
  | block _ | conditional _ _ _ | repeatLoop _ _ | whileLoop _ _ _ => false

/-- Whether the node owns a block. -/
def isStructural : Node → Bool
  | leaf _ => false
  | data _ _ child => child.isSome
  | sealed _ _ | block _ | conditional _ _ _ | repeatLoop _ _ | whileLoop _ _ _ => true

end Node

end TvmAssembly
