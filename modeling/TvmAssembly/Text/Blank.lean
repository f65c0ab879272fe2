/-!
# Blank characters

The characters that separate the words of a line: those with the Unicode property
`White_Space`. Trimming removes them from both ends of a text and from nowhere else.
-/

namespace TvmAssembly.Text

/-- The code points with the property `White_Space`, in order. -/
def blankCodes : List Nat :=
  [0x09, 0x0A, 0x0B, 0x0C, 0x0D, 0x20, 0x85, 0xA0, 0x1680, 0x2000, 0x2001, 0x2002, 0x2003, 0x2004,
    0x2005, 0x2006, 0x2007, 0x2008, 0x2009, 0x200A, 0x2028, 0x2029, 0x202F, 0x205F, 0x3000]

def isBlank (c : Char) : Bool :=
  blankCodes.contains c.toNat

def trimStart (cs : List Char) : List Char :=
  cs.dropWhile isBlank

def trimEnd (cs : List Char) : List Char :=
  (cs.reverse.dropWhile isBlank).reverse

def trim (cs : List Char) : List Char :=
  trimEnd (trimStart cs)

/-- The text up to its first blank character, and the rest from there on. -/
def splitWord (cs : List Char) : List Char × List Char :=
  (cs.takeWhile fun c => !isBlank c, cs.dropWhile fun c => !isBlank c)

end TvmAssembly.Text
