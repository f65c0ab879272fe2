import TvmAssembly.Blake3.Tree
import TvmAssembly.Identity.Preimage

/-!
# Content identities

The identity of a block, a function or a program is the BLAKE3 digest of what it is written down as.
It is shown by its first ten hexadecimal digits, which tell the functions of one program apart.
-/

namespace TvmAssembly

structure ContentId where
  digest : Blake3.Digest
deriving DecidableEq

namespace ContentId

def ofPreimage (bytes : Bytes) : ContentId := ⟨Blake3.digest bytes⟩

def bytes (c : ContentId) : Bytes := c.digest.toList

def hex (c : ContentId) : String := c.bytes.hex

def short (c : ContentId) : String := String.ofList (c.bytes.hexDigits.take 10)

def display (c : ContentId) : String := "#" ++ c.short

/-- The form for debugging, which also says what it is. -/
def debug (c : ContentId) : String := s!"ContentHash({c.display})"

end ContentId

def Block.contentId (b : Block) : ContentId := .ofPreimage (Identity.blockPreimage b)

def Function.contentId (f : Function) : ContentId := .ofPreimage (Identity.functionPreimage f)

def Program.contentId (p : Program) : ContentId :=
  .ofPreimage (Identity.programPreimage (fun f => f.contentId.bytes) p)

end TvmAssembly
