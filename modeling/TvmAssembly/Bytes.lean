/-!
# Byte strings

The pieces that both byte formats of the library are put together from.
-/

namespace TvmAssembly

abbrev Bytes := List UInt8

namespace Bytes

/-- The UTF-8 form of a text. -/
def ofText (text : String) : Bytes :=
  text.toByteArray.data.toList

/-- Four bytes, the lowest first. -/
def ofWord (word : UInt32) : Bytes :=
  [word.toUInt8, (word >>> 8).toUInt8, (word >>> 16).toUInt8, (word >>> 24).toUInt8]

def ofBool (flag : Bool) : Bytes :=
  [if flag then 1 else 0]

/-- Two digits a byte, the high one first. -/
def hexDigits (bytes : Bytes) : List Char :=
  bytes.flatMap fun b => [Nat.digitChar (b.toNat / 16), Nat.digitChar (b.toNat % 16)]

def hex (bytes : Bytes) : String :=
  String.ofList bytes.hexDigits

theorem ofText_inj {s t : String} : ofText s = ofText t ↔ s = t := by
  simp only [ofText, Array.toList_inj, ← ByteArray.ext_iff, String.toByteArray_inj]

end Bytes

end TvmAssembly
