import TvmAssembly.Bytes
import TvmAssembly.Handoff.Datum

/-!
# The compact format

Data as bytes, with nothing between the parts: a record is its fields, a list its length and its
items, a text its length and its UTF-8 form, an option the byte 0, or 1 and its value. Numbers
beyond a byte, lengths and choices are written in base 128, the low digits first, and all digits but
the last have the high bit set.
-/

namespace TvmAssembly

def varint (n : Nat) : Bytes :=
  if n < 128 then [UInt8.ofNat n] else UInt8.ofNat (n % 128 + 128) :: varint (n / 128)

mutual

def Datum.compact : Datum → Bytes
  | .flag b => Bytes.ofBool b
  | .byte n => [n]
  | .word n => varint n.toNat
  | .text s => varint s.utf8ByteSize ++ Bytes.ofText s
  | .absent => [0]
  | .present d => 1 :: d.compact
  | .list items => varint items.length ++ compactItems items
  | .record fields => compactFields fields
  | .choice index _ => varint index
  | .tagged index _ content => varint index ++ content.compact
  termination_by structural d => d

def Field.compact : Field → Bytes
  | ⟨_, content⟩ => content.compact
  termination_by structural f => f

def compactItems : List Datum → Bytes
  | [] => []
  | d :: ds => d.compact ++ compactItems ds
  termination_by structural ds => ds

def compactFields : List Field → Bytes
  | [] => []
  | f :: fs => f.compact ++ compactFields fs
  termination_by structural fs => fs

end

end TvmAssembly
