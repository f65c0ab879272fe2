/-!
# Style of printed assembly

What is up to taste: the indentation, and whether comments and locations are printed.
-/

namespace TvmAssembly

structure Style where
  /-- One level of indentation. -/
  indent : String
  comments : Bool
  locations : Bool
deriving DecidableEq, Repr

def Style.standard : Style := ⟨"\t", true, false⟩

end TvmAssembly
