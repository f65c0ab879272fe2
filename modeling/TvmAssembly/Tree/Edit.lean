import TvmAssembly.Tree.Basic

/-!
# Editing trees

Three edits that passes over a tree are made of: another frame for the same code, a node wrapped
into blocks, and code without its locations.
-/

namespace TvmAssembly

def Block.reframe (b : Block) (frame : Frame) : Block :=
  { b with frame }

/-- The node inside `depth` blocks, one in the other. -/
def Node.nest (frame : Frame) (n : Node) : Nat → Node
  | 0 => n
  | depth + 1 => .block ⟨frame, [n.nest frame depth]⟩

mutual

/-- Without the locations of the block itself and of the blocks that stand directly in one another.
Blocks that belong to a branch, a loop, a literal or a sealed block keep theirs. -/
def Block.dropLocations : Block → Block
  | ⟨frame, body⟩ => ⟨frame, dropLocationsFrom body⟩
  termination_by structural b => b

def Node.dropLocations : Node → Node
  | .block b => .block b.dropLocations
  | .leaf l => .leaf l
  | .sealed b s => .sealed b s
  | .data k t c => .data k t c
  | .conditional k t f => .conditional k t f
  | .repeatLoop k b => .repeatLoop k b
  | .whileLoop c b p => .whileLoop c b p
  termination_by structural n => n

def dropLocationsFrom : List Node → List Node
  | [] => []
  | .leaf (.location _) :: rest => dropLocationsFrom rest
  | n :: rest => n.dropLocations :: dropLocationsFrom rest
  termination_by structural ns => ns

end

end TvmAssembly
