import TvmAssembly.Blake3.Compression
import TvmAssembly.Bytes

/-!
# BLAKE3: the hash of a byte string

The input is cut into chunks of 1024 bytes, and a chunk into blocks of 64. The chunks are the leaves
of a binary tree whose left subtrees are full and as large as they can be. Of a subtree only its
last compression is kept open, because at the root a flag is added to it.
-/

namespace TvmAssembly.Blake3

abbrev Digest := Vector UInt8 32

def chunkStart : UInt32 := 1

def chunkEnd : UInt32 := 2

def parentFlag : UInt32 := 4

def rootFlag : UInt32 := 8

def blockSize : Nat := 64

def chunkSize : Nat := 1024

/-- The words of a block, the low byte of each first. A short block is filled with zeros. -/
def blockWords (block : Bytes) : Words :=
  let bytes := block.toArray
  let byte (i : Nat) : UInt32 := (bytes[i]?.getD 0).toUInt32
  Vector.ofFn fun i : Fin 16 =>
    byte (4 * i) ||| (byte (4 * i + 1) <<< 8) ||| (byte (4 * i + 2) <<< 16) |||
      (byte (4 * i + 3) <<< 24)

/-- The last compression of a chunk. `flags` marks its first block as such. -/
def chunk (index : UInt64) (chaining : Chaining) (flags : UInt32) (bytes : Bytes) : Compression :=
  if bytes.length ≤ blockSize then
    ⟨chaining, blockWords bytes, index, UInt32.ofNat bytes.length, flags ||| chunkEnd⟩
  else
    let next := Compression.mk chaining (blockWords (bytes.take blockSize)) index 64 flags
    chunk index next.output 0 (bytes.drop blockSize)
termination_by bytes.length
decreasing_by
  simp only [List.length_drop, blockSize] at *
  omega

def parent (left right : Chaining) : Compression :=
  ⟨initial, left ++ right, 0, 64, parentFlag⟩

/-- The largest full tree of chunks that leaves something for the right side. -/
def leftSize (size : Nat) : Nat :=
  chunkSize <<< ((size - 1) / chunkSize).log2

theorem leftSize_pos (size : Nat) : 0 < leftSize size := by
  rw [leftSize, Nat.shiftLeft_eq]
  exact Nat.mul_pos (by decide) (Nat.two_pow_pos _)

theorem leftSize_lt {size : Nat} (h : chunkSize < size) : leftSize size < size := by
  simp only [leftSize, chunkSize, Nat.shiftLeft_eq] at *
  have hq : (size - 1) / 1024 ≠ 0 := by omega
  have := Nat.log2_self_le hq
  omega

/-- The last compression of the subtree whose first chunk has the given index. -/
def subtree (index : Nat) (bytes : Bytes) : Compression :=
  if bytes.length ≤ chunkSize then chunk (UInt64.ofNat index) initial chunkStart bytes
  else
    let left := leftSize bytes.length
    parent (subtree index (bytes.take left)).output
      (subtree (index + left / chunkSize) (bytes.drop left)).output
termination_by bytes.length
decreasing_by
  · have := leftSize_lt (Nat.lt_of_not_le ‹¬bytes.length ≤ chunkSize›)
    simp only [List.length_take]
    omega
  · have := leftSize_pos bytes.length
    have : 0 < bytes.length := by omega
    simp only [List.length_drop]
    omega

def digest (bytes : Bytes) : Digest :=
  let root := subtree 0 bytes
  let words := { root with flags := root.flags ||| rootFlag }.output
  Vector.ofFn fun i : Fin 32 => (words[i.val / 4] >>> (8 * UInt32.ofNat (i.val % 4))).toUInt8

end TvmAssembly.Blake3
