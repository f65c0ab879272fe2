/-!
# BLAKE3: the compression function

One block of sixteen message words is mixed into a chaining value of eight words. The state of
sixteen words goes through seven rounds; between two rounds the message words are permuted.
-/

namespace TvmAssembly.Blake3

abbrev Chaining := Vector UInt32 8

abbrev Words := Vector UInt32 16

def initial : Chaining :=
  #v[0x6A09E667, 0xBB67AE85, 0x3C6EF372, 0xA54FF53A, 0x510E527F, 0x9B05688C, 0x1F83D9AB, 0x5BE0CD19]

/-- All that one application of the compression function depends on. -/
structure Compression where
  chaining : Chaining
  words : Words
  counter : UInt64
  length : UInt32
  flags : UInt32

def rotateRight (w count : UInt32) : UInt32 :=
  (w >>> count) ||| (w <<< (32 - count))

/-- Mixes two message words into a column or a diagonal of the state. -/
def mix (s : Words) (a b c d : Fin 16) (x y : UInt32) : Words :=
  let va := s[a] + s[b] + x
  let vd := rotateRight (s[d] ^^^ va) 16
  let vc := s[c] + vd
  let vb := rotateRight (s[b] ^^^ vc) 12
  let va := va + vb + y
  let vd := rotateRight (vd ^^^ va) 8
  let vc := vc + vd
  let vb := rotateRight (vb ^^^ vc) 7
  (((s.set a va).set b vb).set c vc).set d vd

/-- The columns, then the diagonals. -/
def round (s m : Words) : Words :=
  let s := mix s 0 4 8 12 m[0] m[1]
  let s := mix s 1 5 9 13 m[2] m[3]
  let s := mix s 2 6 10 14 m[4] m[5]
  let s := mix s 3 7 11 15 m[6] m[7]
  let s := mix s 0 5 10 15 m[8] m[9]
  let s := mix s 1 6 11 12 m[10] m[11]
  let s := mix s 2 7 8 13 m[12] m[13]
  mix s 3 4 9 14 m[14] m[15]

def schedule : Vector (Fin 16) 16 :=
  #v[2, 6, 3, 10, 7, 0, 4, 13, 1, 11, 12, 5, 9, 14, 15, 8]

def permuted (m : Words) : Words :=
  schedule.map fun i => m[i]

def rounds (s m : Words) : Nat → Words
  | 0 => s
  | count + 1 => rounds (round s m) (permuted m) count

namespace Compression

def state (c : Compression) : Words :=
  #v[c.chaining[0], c.chaining[1], c.chaining[2], c.chaining[3],
    c.chaining[4], c.chaining[5], c.chaining[6], c.chaining[7],
    initial[0], initial[1], initial[2], initial[3],
    c.counter.toUInt32, (c.counter >>> 32).toUInt32, c.length, c.flags]

/-- The chaining value for what comes next: the two halves of the last state, one on the other. -/
def output (c : Compression) : Chaining :=
  let s := rounds c.state c.words 7
  Vector.ofFn fun i : Fin 8 => s[i.val] ^^^ s[i.val + 8]

end Compression

end TvmAssembly.Blake3
