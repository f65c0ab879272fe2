import TvmAssembly.Tree.Basic

/-!
# Pieces of printed assembly

A tree is printed as a list of pieces. What a piece looks like on paper depends on the style and on
the pieces before it, but which pieces a tree has depends on the tree alone. Structural nodes come
as the machine runs them: first the blocks, as it pushes them, then the instruction that uses them.
-/

namespace TvmAssembly

inductive Piece where
  | leaf (l : Leaf)
  /-- A literal up to its code: all of an inline slice, the opening of any other. -/
  | literal (d : DataPush)
  | text (text : String)
  | blank
  | opening (header : String)
  | closing
  /-- The head of a function, which stands apart from a function before it. -/
  | functionHead (f : Function)
  | functionEnd

/-- Code under a header. -/
def enclosed (header : String) (code : List Piece) : List Piece :=
  .opening header :: (code ++ [.closing])

mutual

def Node.pieces : Node → List Piece
  | .leaf l => [.leaf l]
  | .sealed b _ => enclosed b.frame.token b.bodyPieces
  | .data k t c =>
    .literal ⟨k, t, c⟩ :: if k = .inlineSlice then [] else childBodyPieces c ++ [.closing]
  | .block b => enclosed b.frame.token b.bodyPieces
  | .conditional k t (some f) =>
    enclosed t.frame.token t.bodyPieces ++ enclosed f.frame.token f.bodyPieces ++
      [.text k.mnemonic]
  | .conditional k t none =>
    match t.frame.branch? with
    | none => enclosed t.frame.token t.bodyPieces ++ [.text k.mnemonic]
    | some encoded =>
      -- a frame that took the other branch becomes a plain one, followed by the instruction
      if encoded = k then enclosed t.frame.token t.bodyPieces
      else enclosed Frame.pushRefCont.token t.bodyPieces ++ [.text k.mnemonic]
  | .repeatLoop k b => enclosed b.frame.token b.bodyPieces ++ [.text k.mnemonic]
  | .whileLoop c b p =>
    enclosed c.frame.token c.bodyPieces ++ enclosed b.frame.token b.bodyPieces ++
      [.text (whileMnemonic p)]
  termination_by structural n => n

/-- The pieces of a block's nodes, without those of its frame. -/
def Block.bodyPieces : Block → List Piece
  | ⟨_, ns⟩ => piecesOf ns
  termination_by structural b => b

def childBodyPieces : Option Block → List Piece
  | none => []
  | some b => b.bodyPieces
  termination_by structural c => c

def piecesOf : List Node → List Piece
  | [] => []
  | n :: ns => n.pieces ++ piecesOf ns
  termination_by structural ns => ns

end

def Block.pieces (b : Block) : List Piece :=
  enclosed b.frame.token b.bodyPieces

def Function.pieces (f : Function) : List Piece :=
  .functionHead f :: (f.block.bodyPieces ++ [.functionEnd])

/-- The pragmas, with a blank line between them and the functions. -/
def Program.headPieces (p : Program) : List Piece :=
  p.pragmas.map (fun pragma => .text (".pragma " ++ pragma)) ++
    if p.pragmas.isEmpty || p.functions.isEmpty then [] else [.blank]

def Program.pieces (p : Program) : List Piece :=
  p.headPieces ++ p.functions.flatMap Function.pieces

end TvmAssembly
