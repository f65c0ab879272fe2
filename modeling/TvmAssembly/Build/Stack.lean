import TvmAssembly.Leaf.Basic
import TvmAssembly.Log

/-!
# Building stack and global instructions

Each factory admits exactly the operands that the machine encodes and checks them in the order of
its parameters. Two requests have a shorter spelling, which the factory chooses: a block push of one
value is a push, and dropping the one value below the top is a pop.
-/

namespace TvmAssembly.Build

/-- The last slot of the long instructions. -/
def maxSlot : UInt32 := 255

/-- The last operand of the short instructions. -/
def maxShortSlot : UInt32 := 15

/-- The last global variable. The machine keeps variable 0 for itself. -/
def maxGlobal : UInt32 := 254

def checked (operand : Operand) (value : UInt32) : Except Fault UInt8 :=
  if operand.low ≤ value ∧ value ≤ operand.high then .ok value.toUInt8
  else .error (.outOfRange operand value)

def push (slot : UInt32) : Except Fault StackOp := do
  return .push (← checked ⟨"make_push", "index", 0, maxSlot, by decide⟩ slot)

def pop (slot : UInt32) : Except Fault StackOp := do
  return .pop (← checked ⟨"make_pop", "index", 1, maxSlot, by decide⟩ slot)

def drop (count : UInt32) : Except Fault StackOp := do
  return .drop (← checked ⟨"make_drop", "count", 1, maxSlot, by decide⟩ count)

def swapTop (slot : UInt32) : Except Fault StackOp := do
  return .swapTop (← checked ⟨"make_xchg_s", "index", 1, maxSlot, by decide⟩ slot)

def swap (first second : UInt32) : Except Fault StackOp := do
  let i ← checked ⟨"make_xchg_s_s", "first index", 0, maxSlot, by decide⟩ first
  let j ← checked ⟨"make_xchg_s_s", "second index", 0, maxSlot, by decide⟩ second
  return .swap i j

/-- Count and slot of a block push. -/
def blockOperands (count slot : UInt32) : Except Fault (UInt8 × UInt8) := do
  let n ← checked ⟨"make_blkpush", "qty", 1, maxShortSlot, by decide⟩ count
  let i ← checked ⟨"make_blkpush", "index", 0, maxShortSlot, by decide⟩ slot
  return (n, i)

def pushBlock (count slot : UInt32) : Attempt StackOp :=
  match blockOperands count slot with
  | .error fault => .silent (.error fault)
  | .ok (n, i) =>
    if n = 1 then ⟨push i.toUInt32, [.singlePush i]⟩ else .silent (.ok (.pushBlock n i))

def push2 (first second : UInt32) : Except Fault StackOp := do
  let i ← checked ⟨"make_push2", "first index", 0, maxShortSlot, by decide⟩ first
  let j ← checked ⟨"make_push2", "second index", 0, maxShortSlot, by decide⟩ second
  return .push2 i j

def push3 (first second third : UInt32) : Except Fault StackOp := do
  let i ← checked ⟨"make_push3", "first index", 0, maxShortSlot, by decide⟩ first
  let j ← checked ⟨"make_push3", "second index", 0, maxShortSlot, by decide⟩ second
  let k ← checked ⟨"make_push3", "third index", 0, maxShortSlot, by decide⟩ third
  return .push3 i j k

/-- How many values to drop, and how many to keep above them. -/
def belowOperands (dropped kept : UInt32) : Except Fault (UInt8 × UInt8) := do
  let n ← checked ⟨"make_blkdrop2", "dropped", 1, maxShortSlot, by decide⟩ dropped
  let k ← checked ⟨"make_blkdrop2", "left", 0, maxShortSlot, by decide⟩ kept
  return (n, k)

def dropBelow (dropped kept : UInt32) : Attempt StackOp :=
  match belowOperands dropped kept with
  | .error fault => .silent (.error fault)
  | .ok (n, k) =>
    if n = 1 ∧ k = 1 then ⟨pop 1, [.singleDrop]⟩ else .silent (.ok (.dropBelow n k))

def reverse (count offset : UInt32) : Except Fault StackOp := do
  let n ← checked ⟨"make_reverse", "count", 0, maxSlot, by decide⟩ count
  let i ← checked ⟨"make_reverse", "offset", 0, maxSlot, by decide⟩ offset
  return .reverse n i

def globalOp (factory : String) (mode : GlobalMode) (index : UInt32) : Except Fault GlobalOp := do
  return ⟨mode, ← checked ⟨factory, "global index", 1, maxGlobal, by decide⟩ index⟩

def getGlobal : UInt32 → Except Fault GlobalOp := globalOp "make_get_glob" .get

def setGlobal : UInt32 → Except Fault GlobalOp := globalOp "make_set_glob" .set

def exchangeGlobal : UInt32 → Except Fault GlobalOp := globalOp "make_exchange_glob" .exchange

/-- What is admitted is a byte, so nothing of it is cut off. -/
theorem checked_eq_ok_iff {operand : Operand} {value : UInt32} {byte : UInt8} :
    checked operand value = .ok byte ↔
      (operand.low ≤ value ∧ value ≤ operand.high) ∧ value = byte.toUInt32 := by
  have hb := byte.toNat_lt
  have hh := operand.high_le
  unfold checked
  split
  · next h =>
    have hv : value.toNat < 256 := by
      have h1 := UInt32.le_iff_toNat_le.1 h.2
      have h2 := UInt32.le_iff_toNat_le.1 hh
      have h3 : (255 : UInt32).toNat = 255 := rfl
      omega
    simp only [Except.ok.injEq, h, and_self, true_and]
    rw [← UInt8.toNat_inj, ← UInt32.toNat_inj, UInt32.toNat_toUInt8, UInt8.toNat_toUInt32]
    omega
  · next h => simp [h]

end TvmAssembly.Build
