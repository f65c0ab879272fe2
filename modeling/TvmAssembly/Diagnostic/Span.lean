import TvmAssembly.Text.Occurrence

/-!
# Spans

A span marks a stretch of one line of source by two offsets in bytes. Offsets are 32-bit words. The
span from 0 to 0 marks nothing and stands for a place that is not known.
-/

namespace TvmAssembly

structure Span where
  start : UInt32
  stop : UInt32
deriving DecidableEq, Repr

namespace Span

def dummy : Span := ⟨0, 0⟩

/-- The span between two offsets, unless they are in the wrong order. -/
def between? (start stop : UInt32) : Option Span :=
  if start ≤ stop then some ⟨start, stop⟩ else none

def isDummy (s : Span) : Bool := s = dummy

/-- The leftmost place of `part` in `text`, the dummy span if there is none or if `part` is empty.
Fails only where an offset leaves the range of words and the two come to stand in the wrong
order. -/
def find? (text part : String) : Option Span :=
  match part.toList, Text.before? part.toList text.toList with
  | _ :: _, some front =>
    let start := (String.ofList front).utf8ByteSize
    between? (UInt32.ofNat start) (UInt32.ofNat (start + part.utf8ByteSize))
  | _, _ => some dummy

/-- The smallest span around both. -/
def merge (s t : Span) : Span :=
  ⟨min s.start t.start, max s.stop t.stop⟩

end Span

end TvmAssembly
