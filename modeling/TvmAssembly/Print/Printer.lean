import TvmAssembly.Print.Piece
import TvmAssembly.Print.Style
import TvmAssembly.Text.Lines
import TvmAssembly.Walk.Visitor

/-!
# The printer

The printer puts pieces on lines. It knows how deep it stands and how many functions it has printed,
and it can be used again and again: each use goes on where the last one stopped. As a visitor it
prints most containers at a stroke and does not want to be led through them; `Printer.node_visitor`
and its companions say that a walk with it prints the pieces of the tree.
-/

namespace TvmAssembly

structure Printer where
  style : Style
  lines : Array String
  depth : Nat
  functions : Nat
deriving DecidableEq

namespace Printer

def start (style : Style) : Printer := ⟨style, #[], 0, 0⟩

/-- A line at the present depth. Nothing is put before an empty one. -/
def indented (p : Printer) (line : String) : String :=
  if line = "" then "" else String.join (List.replicate p.depth p.style.indent) ++ line

/-- Prints a text on lines of its own. An empty text has none. -/
def emit (p : Printer) (text : String) : Printer :=
  { p with lines := p.lines ++ (Text.lines text).map p.indented }

def deeper (p : Printer) : Printer := { p with depth := p.depth + 1 }

def shallower (p : Printer) : Printer := { p with depth := p.depth - 1 }

def skipLine (p : Printer) : Printer := { p with lines := p.lines.push "" }

def openBlock (p : Printer) (header : String) : Printer :=
  (p.emit (header ++ " \x7b")).deeper

def closeBlock (p : Printer) : Printer :=
  p.shallower.emit "\x7d"

/-- An opcode with its comment or without it, as the style wants. -/
def mnemonic (p : Printer) (m : Mnemonic) : Printer :=
  p.emit (if p.style.comments then m.render else m.code)

def leaf (p : Printer) : Leaf → Printer
  | .location l => if p.style.locations then p.emit l.text else p
  | .stack op => p.emit op.text
  | .global op => p.emit op.text
  | .instruction i => p.mnemonic i.line
  | .verbatim v => v.lines.foldl emit p
  | .exit e => p.mnemonic e.line

def literal (p : Printer) (d : DataPush) : Printer :=
  if d.kind = .inlineSlice then p.emit (d.kind.token ++ " " ++ d.text)
  else
    let opened := p.openBlock d.kind.token
    if d.text = "" then opened else opened.emit (".blob " ++ d.text)

def functionHead (p : Printer) (f : Function) : Printer :=
  let apart := if p.functions = 0 then p else p.skipLine
  ({ apart with functions := p.functions + 1 }.emit (f.kind.directive ++ " " ++ f.name)).deeper

def piece (p : Printer) : Piece → Printer
  | .leaf l => p.leaf l
  | .literal d => p.literal d
  | .text text => p.emit text
  | .blank => p.skipLine
  | .opening header => p.openBlock header
  | .closing => p.closeBlock
  | .functionHead f => p.functionHead f
  | .functionEnd => p.shallower

def print (p : Printer) (pieces : List Piece) : Printer :=
  pieces.foldl piece p

/-- The printed text. Each line ends in a line feed, but no text at all has none. -/
def finish (p : Printer) : String :=
  let text := "\n".intercalate p.lines.toList
  if text = "" then "" else text ++ "\n"

def visitor : Visitor Printer where
  leaf l p := p.leaf l
  enter
    | .program program, p => (p.print program.headPieces, true)
    | .function f, p => (p.print f.pieces, false)
    | .block b, p => (p.openBlock b.frame.token, true)
    | .sealed _, p => (p, true)
    | .data d, p => (p.print d.node.pieces, false)
    | .conditional c, p => (p.print c.node.pieces, false)
    | .repeatLoop l, p => (p.print l.node.pieces, false)
    | .whileLoop l, p => (p.print l.node.pieces, false)
  leave _ p := p.closeBlock

theorem print_append (p : Printer) (as bs : List Piece) :
    p.print (as ++ bs) = (p.print as).print bs :=
  List.foldl_append

theorem print_enclosed (p : Printer) (header : String) (code : List Piece) :
    p.print (enclosed header code) = ((p.openBlock header).print code).closeBlock := by
  simp [enclosed, print, piece]

mutual

theorem node_visitor (p : Printer) : (n : Node) → visitor.node n p = p.print n.pieces
  | .leaf _ => rfl
  | .sealed b _ => block_visitor p b
  | .data _ _ _ => rfl
  | .block b => block_visitor p b
  | .conditional _ _ _ => rfl
  | .repeatLoop _ _ => rfl
  | .whileLoop _ _ _ => rfl
  termination_by structural n => n

theorem block_visitor (p : Printer) : (b : Block) → visitor.block b p = p.print b.pieces
  | ⟨f, ns⟩ => by
    rw [Block.pieces, print_enclosed]
    exact congrArg closeBlock (body_visitor _ ns)
  termination_by structural b => b

theorem body_visitor (p : Printer) : (ns : List Node) → visitor.body ns p = p.print (piecesOf ns)
  | [] => rfl
  | n :: ns => by
    rw [Visitor.body, Function.comp_apply, node_visitor p n, body_visitor _ ns, piecesOf,
      print_append]
  termination_by structural ns => ns

end

theorem function_visitor (p : Printer) (f : Function) :
    visitor.function f p = p.print f.pieces := rfl

theorem program_visitor (p : Printer) (program : Program) :
    visitor.program program p = p.print program.pieces := by
  rw [Program.pieces, print_append]
  change program.functions.foldl (fun q f => visitor.function f q) (p.print program.headPieces) = _
  generalize p.print program.headPieces = q
  induction program.functions generalizing q with
  | nil => rfl
  | cons f fs ih => rw [List.foldl_cons, ih, List.flatMap_cons, print_append, function_visitor]

end Printer

def Node.print (n : Node) (style : Style) : String :=
  ((Printer.start style).print n.pieces).finish

def Block.print (b : Block) (style : Style) : String :=
  ((Printer.start style).print b.pieces).finish

def Function.print (f : Function) (style : Style) : String :=
  ((Printer.start style).print f.pieces).finish

def Program.print (p : Program) (style : Style) : String :=
  ((Printer.start style).print p.pieces).finish

end TvmAssembly
