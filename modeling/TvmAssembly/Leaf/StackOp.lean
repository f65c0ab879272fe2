import TvmAssembly.StackEffect
import TvmAssembly.Text.Numeral

/-!
# Stack instructions

The instructions that only copy, drop and move values of the stack. Slot 0 is the top. Operands are
bytes, and an instruction has exactly the operands it uses.
-/

namespace TvmAssembly

inductive StackOp where
  /-- Drops the top `count` values. -/
  | drop (count : UInt8)
  /-- Moves the top into a slot. -/
  | pop (slot : UInt8)
  /-- Pushes a copy of one and the same slot `count` times; each copy pushed shifts the slots. -/
  | pushBlock (count slot : UInt8)
  | push (slot : UInt8)
  | dup2
  | push2 (first second : UInt8)
  | push3 (first second third : UInt8)
  | over2
  /-- Exchanges the top with a slot. -/
  | swapTop (slot : UInt8)
  | swap (first second : UInt8)
  /-- Drops `count` values that lie below the top `kept` ones. -/
  | dropBelow (count kept : UInt8)
  /-- Turns round `count` values from slot `offset` on. -/
  | reverse (count offset : UInt8)
  | rot
  | rotBack
deriving DecidableEq, Repr

namespace StackOp

def index (op : StackOp) : Nat := op.ctorIdx

def name : StackOp → String
  | drop _ => "Drop"
  | pop _ => "PopS"
  | pushBlock _ _ => "BlkPush"
  | push _ => "PushS"
  | dup2 => "Dup2"
  | push2 _ _ => "Push2S"
  | push3 _ _ _ => "Push3S"
  | over2 => "Over2"
  | swapTop _ => "XchgS0"
  | swap _ _ => "XchgSS"
  | dropBelow _ _ => "BlkDrop2"
  | reverse _ _ => "Reverse"
  | rot => "Rot"
  | rotBack => "RotRev"

/-- The operands in order, zero where there is none. -/
def operands : StackOp → UInt8 × UInt8 × UInt8
  | drop n => (n, 0, 0)
  | pop i => (i, 0, 0)
  | pushBlock n i => (n, i, 0)
  | push i => (i, 0, 0)
  | dup2 => (0, 0, 0)
  | push2 i j => (i, j, 0)
  | push3 i j k => (i, j, k)
  | over2 => (0, 0, 0)
  | swapTop i => (i, 0, 0)
  | swap i j => (i, j, 0)
  | dropBelow n k => (n, k, 0)
  | reverse n i => (n, i, 0)
  | rot => (0, 0, 0)
  | rotBack => (0, 0, 0)

/-- Values that only change places are not counted. -/
def effect : StackOp → StackEffect
  | drop n => ⟨n.toUInt32, 0⟩
  | pop _ => ⟨1, 0⟩
  | pushBlock n _ => ⟨0, n.toUInt32⟩
  | push _ => ⟨0, 1⟩
  | dup2 | over2 | push2 _ _ => ⟨0, 2⟩
  | push3 _ _ _ => ⟨0, 3⟩
  | dropBelow n k => ⟨n.toUInt32 + k.toUInt32, k.toUInt32⟩
  | swapTop _ | swap _ _ | reverse _ _ | rot | rotBack => .none

def number (n : UInt8) : String := Text.decimal n.toNat

def slot (i : UInt8) : String := "s" ++ number i

/-- The shortest spelling of the instruction; a drop beyond the short form takes its count from
the stack. -/
def text : StackOp → String
  | drop n =>
    if n = 1 then "DROP"
    else if 2 ≤ n ∧ n ≤ 15 then "BLKDROP " ++ number n
    else "PUSHINT " ++ number n ++ "\nDROPX"
  | pop i => if i = 1 then "NIP" else "POP " ++ slot i
  | pushBlock n i => "BLKPUSH " ++ number n ++ ", " ++ number i
  | push i => if i = 0 then "DUP" else if i = 1 then "OVER" else "PUSH " ++ slot i
  | dup2 => "DUP2"
  | push2 i j => "PUSH2 " ++ slot i ++ ", " ++ slot j
  | push3 i j k => "PUSH3 " ++ slot i ++ ", " ++ slot j ++ ", " ++ slot k
  | over2 => "OVER2"
  | swapTop i => if i = 1 then "SWAP" else "XCHG " ++ slot i
  | swap i j => "XCHG " ++ slot i ++ ", " ++ slot j
  | dropBelow n k => "BLKDROP2 " ++ number n ++ ", " ++ number k
  | reverse n i => "REVERSE " ++ number n ++ ", " ++ number i
  | rot => "ROT"
  | rotBack => "ROTREV"

/-- Which instruction it is and its operands say everything. -/
theorem eq_of_index_of_operands {a b : StackOp} (hi : a.index = b.index)
    (ho : a.operands = b.operands) : a = b := by
  cases a <;> cases b <;> simp_all [operands, index, StackOp.ctorIdx]

end StackOp

end TvmAssembly
