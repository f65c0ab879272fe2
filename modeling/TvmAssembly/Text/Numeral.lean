/-!
# Decimal numerals

A number is written with its digits and nothing else. A numeral that is read is one or more digits,
after a plus sign or without one; leading zeros count for nothing, and the value has to fit a 32-bit
word.
-/

namespace TvmAssembly.Text

def decimal (n : Nat) : String :=
  String.ofList (Nat.toDigits 10 n)

def digitValue? (c : Char) : Option Nat :=
  if '0' ≤ c ∧ c ≤ '9' then some (c.toNat - '0'.toNat) else none

/-- The value of a run of digits that continues the digits of `high`. -/
def digitsFrom? (high : Nat) : List Char → Option Nat
  | [] => some high
  | c :: cs => (digitValue? c).bind fun d => digitsFrom? (10 * high + d) cs

def unsigned : List Char → List Char
  | '+' :: cs => cs
  | cs => cs

def natural? (cs : List Char) : Option Nat :=
  match unsigned cs with
  | [] => none
  | digits => digitsFrom? 0 digits

def word? (text : String) : Option UInt32 :=
  (natural? text.toList).bind fun n => if n < UInt32.size then some (UInt32.ofNat n) else none

end TvmAssembly.Text
