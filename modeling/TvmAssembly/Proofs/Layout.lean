import Mathlib.Tactic.Lemma
import TvmAssembly.Print.Printer

/-!
# Layout of printed trees

What a printer puts on paper for a tree is a list of lines that the tree and the style decide alone;
the lines of nested code stand one level deeper. A `Layout` says what a level is and which lines a
leaf has, and `Layout.node` and its companions lay a tree out by recursion on it, without a state.
A walk of the printer writes just these lines at the depth where it stands, and leaves the depth and
the count of functions as they were (`Printer.visitor_node`, `Printer.visitor_block`).
-/

namespace TvmAssembly

/-- Different lines are still different behind an indent. -/
lemma Text.injective_indent (indent : String) :
    Function.Injective fun line : String => if line = "" then "" else indent ++ line := by
  intro a b h
  dsimp only at h
  by_cases ha : a = "" <;> by_cases hb : b = ""
  · rw [ha, hb]
  · rw [if_pos ha, if_neg hb] at h
    exact absurd (String.append_eq_empty_iff.mp h.symm).2 hb
  · rw [if_neg ha, if_pos hb] at h
    exact absurd (String.append_eq_empty_iff.mp h).2 ha
  · rw [if_neg ha, if_neg hb] at h
    exact (String.append_right_inj _).mp h

/-- What stands before a line for each level, and the lines of a leaf. -/
structure Layout where
  indent : String
  leaf : Leaf → List String

namespace Layout

variable (L : Layout)

/-- A line one level deeper. Nothing is put before an empty one. -/
def shift (line : String) : String :=
  if line = "" then "" else L.indent ++ line

lemma shift_injective : Function.Injective L.shift :=
  Text.injective_indent L.indent

/-- Code one level deeper, under a header. -/
def enclosed (header : String) (code : List String) : List String :=
  Text.lines (header ++ " \x7b") ++ (code.map L.shift ++ ["\x7d"])

/-- The text of a literal that stands on lines of its own. -/
def blob (text : String) : List String :=
  if text = "" then [] else Text.lines (".blob " ++ text)

mutual

def node : Node → List String
  | .leaf l => L.leaf l
  | .sealed b _ => L.enclosed b.frame.token (inside b)
  | .data k t c =>
    if k = .inlineSlice then Text.lines (k.token ++ " " ++ t)
    else L.enclosed k.token (blob t ++ insideChild c)
  | .block b => L.enclosed b.frame.token (inside b)
  | .conditional k t (some f) =>
    L.enclosed t.frame.token (inside t) ++ L.enclosed f.frame.token (inside f) ++
      Text.lines k.mnemonic
  | .conditional k t none =>
    match t.frame.branch? with
    | none => L.enclosed t.frame.token (inside t) ++ Text.lines k.mnemonic
    | some encoded =>
      if encoded = k then L.enclosed t.frame.token (inside t)
      else L.enclosed Frame.pushRefCont.token (inside t) ++ Text.lines k.mnemonic
  | .repeatLoop k b => L.enclosed b.frame.token (inside b) ++ Text.lines k.mnemonic
  | .whileLoop c b p =>
    L.enclosed c.frame.token (inside c) ++ L.enclosed b.frame.token (inside b) ++
      Text.lines (whileMnemonic p)
  termination_by structural n => n

/-- The lines of a block's nodes, without those of its frame. -/
def inside : Block → List String
  | ⟨_, ns⟩ => nodes ns
  termination_by structural b => b

def insideChild : Option Block → List String
  | none => []
  | some b => inside b
  termination_by structural c => c

def nodes : List Node → List String
  | [] => []
  | n :: ns => node n ++ nodes ns
  termination_by structural ns => ns

end

def block (b : Block) : List String :=
  L.enclosed b.frame.token (L.inside b)

lemma nodes_eq_flatMap (ns : List Node) : L.nodes ns = ns.flatMap L.node := by
  induction ns with
  | nil => rfl
  | cons n ns ih => rw [nodes, ih, List.flatMap_cons]

lemma inside_eq (b : Block) : L.inside b = L.nodes b.body := by
  obtain ⟨frame, body⟩ := b
  rw [inside]

end Layout

namespace Style

/-- The lines of an instruction, with its comment or without it. -/
def mnemonicLines (style : Style) (m : Mnemonic) : List String :=
  Text.lines (if style.comments then m.render else m.code)

def leafLines (style : Style) : Leaf → List String
  | .location l => if style.locations then Text.lines l.text else []
  | .stack op => Text.lines op.text
  | .global op => Text.lines op.text
  | .instruction i => style.mnemonicLines i.line
  | .verbatim v => v.lines.flatMap Text.lines
  | .exit e => style.mnemonicLines e.line

def layout (style : Style) : Layout := ⟨style.indent, style.leafLines⟩

end Style

namespace Printer

variable (p : Printer)

/-- Writes lines at the present depth and changes nothing else. -/
def write (lines : List String) : Printer :=
  { p with lines := p.lines ++ lines.map p.indented }

lemma write_nil : p.write [] = p := by
  simp [write]

lemma write_write (as bs : List String) : (p.write as).write bs = p.write (as ++ bs) := by
  have hlines : p.lines ++ as.map p.indented ++ bs.map p.indented =
      p.lines ++ (as ++ bs).map p.indented := by
    apply Array.toList_inj.mp
    simp
  exact congrArg (fun lines => { p with lines }) hlines

lemma indented_injective : Function.Injective p.indented :=
  Text.injective_indent _

/-- Which lines were written can be read off. -/
lemma write_injective : Function.Injective p.write := by
  intro as bs h
  have hlines : (p.lines ++ as.map p.indented).toList = (p.lines ++ bs.map p.indented).toList :=
    congrArg (fun q => q.lines.toList) h
  rw [Array.toList_appendList, Array.toList_appendList, List.append_cancel_left_eq] at hlines
  exact (List.map_inj_right p.indented_injective).mp hlines

lemma indented_deeper (line : String) :
    p.deeper.indented line = p.indented (p.style.layout.shift line) := by
  by_cases hline : line = ""
  · simp [indented, Layout.shift, hline]
  · have hshift : p.style.layout.shift line = p.style.indent ++ line := if_neg hline
    have hne : p.style.indent ++ line ≠ "" := by simp [hline]
    rw [hshift, indented, indented, if_neg hline, if_neg hne]
    simp [deeper, List.replicate_succ', String.join_append, String.append_assoc]

/-- What is written one level deeper is written shifted. -/
lemma shallower_write_deeper (lines : List String) :
    (p.deeper.write lines).shallower = p.write (lines.map p.style.layout.shift) := by
  have hdeeper : p.deeper.indented = p.indented ∘ p.style.layout.shift :=
    funext p.indented_deeper
  simp only [write, shallower, hdeeper, List.map_map]
  simp [deeper]

lemma emit_eq_write (text : String) : p.emit text = p.write (Text.lines text) := rfl

lemma openBlock_eq_deeper (header : String) :
    p.openBlock header = (p.write (Text.lines (header ++ " \x7b"))).deeper := rfl

lemma foldl_emit (texts : List String) :
    texts.foldl emit p = p.write (texts.flatMap Text.lines) := by
  induction texts generalizing p with
  | nil => exact p.write_nil.symm
  | cons text texts ih =>
    rw [List.foldl_cons, ih, emit_eq_write, write_write, List.flatMap_cons]

lemma leaf_eq_write (l : Leaf) : p.leaf l = p.write (p.style.leafLines l) := by
  cases l with
  | location l =>
    rw [leaf, Style.leafLines]
    split
    · exact p.emit_eq_write l.text
    · exact p.write_nil.symm
  | verbatim v => exact p.foldl_emit v.lines
  | _ => rfl

/-- Code that is written under a header as `lines` one level deeper is closed at the depth where it
was opened. -/
lemma closeBlock_eq_write {p q : Printer} {header : String} {lines : List String}
    (hq : q = (p.openBlock header).write lines) :
    q.closeBlock = p.write (p.style.layout.enclosed header lines) := by
  rw [hq, closeBlock, openBlock_eq_deeper, shallower_write_deeper, emit_eq_write, write_write,
    write_write]
  rfl

lemma print_enclosed_eq_write {p : Printer} {header : String} {code : List Piece}
    {lines : List String} (h : (p.openBlock header).print code = (p.openBlock header).write lines) :
    p.print (enclosed header code) = p.write (p.style.layout.enclosed header lines) := by
  rw [print_enclosed]
  exact closeBlock_eq_write h

lemma print_append_eq_write {p : Printer} {as bs : List Piece} {ls ms : List String}
    (ha : p.print as = p.write ls) (hb : (p.write ls).print bs = (p.write ls).write ms) :
    p.print (as ++ bs) = p.write (ls ++ ms) := by
  rw [print_append, ha, hb, write_write]

lemma print_text (text : String) : p.print [.text text] = p.write (Text.lines text) := rfl

/-- The opening of a literal that is no inline slice is that of a block, with the text in it. -/
lemma literal_eq_write {d : DataPush} (h : d.kind ≠ .inlineSlice) :
    p.literal d = (p.openBlock d.kind.token).write (Layout.blob d.text) := by
  rw [literal, if_neg h, Layout.blob]
  by_cases htext : d.text = ""
  · rw [if_pos htext, if_pos htext, write_nil]
  · rw [if_neg htext, if_neg htext, emit_eq_write]

mutual

theorem print_node (p : Printer) : (n : Node) → p.print n.pieces = p.write (p.style.layout.node n)
  | .leaf l => p.leaf_eq_write l
  | .sealed b _ => print_enclosed_eq_write (print_inside _ b)
  | .data k t c => by
    rw [Node.pieces, Layout.node]
    by_cases hk : k = .inlineSlice
    · rw [if_pos hk, if_pos hk, hk]
      rfl
    · rw [if_neg hk, if_neg hk]
      have hopen := p.literal_eq_write (d := ⟨k, t, c⟩) hk
      have hcode := print_insideChild ((p.openBlock k.token).write (Layout.blob t)) c
      change ((p.literal ⟨k, t, c⟩).print (childBodyPieces c ++ [.closing])) = _
      rw [hopen, print_append]
      exact closeBlock_eq_write (by rw [hcode, write_write]; rfl)
  | .block b => print_enclosed_eq_write (print_inside _ b)
  | .conditional k t (some f) =>
    print_append_eq_write
      (print_append_eq_write (print_enclosed_eq_write (print_inside _ t))
        (print_enclosed_eq_write (print_inside _ f)))
      (print_text _ _)
  | .conditional k t none => by
    have harm (header : String) :
        p.print (enclosed header t.bodyPieces) =
          p.write (p.style.layout.enclosed header (p.style.layout.inside t)) :=
      print_enclosed_eq_write (print_inside _ t)
    rw [Node.pieces, Layout.node]
    cases t.frame.branch? with
    | none => exact print_append_eq_write (harm _) (print_text _ _)
    | some encoded =>
      by_cases he : encoded = k
      · simp only [if_pos he]
        exact harm _
      · simp only [if_neg he]
        exact print_append_eq_write (harm _) (print_text _ _)
  | .repeatLoop _ b =>
    print_append_eq_write (print_enclosed_eq_write (print_inside _ b)) (print_text _ _)
  | .whileLoop c b _ =>
    print_append_eq_write
      (print_append_eq_write (print_enclosed_eq_write (print_inside _ c))
        (print_enclosed_eq_write (print_inside _ b)))
      (print_text _ _)
  termination_by structural n => n

theorem print_inside (p : Printer) :
    (b : Block) → p.print b.bodyPieces = p.write (p.style.layout.inside b)
  | ⟨_, ns⟩ => print_nodes p ns
  termination_by structural b => b

theorem print_insideChild (p : Printer) :
    (c : Option Block) → p.print (childBodyPieces c) = p.write (p.style.layout.insideChild c)
  | none => p.write_nil.symm
  | some b => print_inside p b
  termination_by structural c => c

theorem print_nodes (p : Printer) :
    (ns : List Node) → p.print (piecesOf ns) = p.write (p.style.layout.nodes ns)
  | [] => p.write_nil.symm
  | n :: ns => print_append_eq_write (print_node p n) (print_nodes _ ns)
  termination_by structural ns => ns

end

theorem visitor_node (n : Node) : visitor.node n p = p.write (p.style.layout.node n) := by
  rw [node_visitor, print_node]

theorem print_block (b : Block) : p.print b.pieces = p.write (p.style.layout.block b) :=
  print_enclosed_eq_write (print_inside _ b)

theorem visitor_block (b : Block) : visitor.block b p = p.write (p.style.layout.block b) := by
  rw [block_visitor, print_block]

/-- A function is its head, and the lines of its block one level deeper. -/
theorem print_function (f : Function) :
    p.print f.pieces =
      ((p.functionHead f).write ((p.functionHead f).style.layout.inside f.block)).shallower := by
  have hpieces : p.print f.pieces =
      (p.functionHead f).print (f.block.bodyPieces ++ [.functionEnd]) := rfl
  rw [hpieces, print_append, print_inside]
  rfl

lemma style_functionHead (f : Function) : (p.functionHead f).style = p.style := by
  rw [functionHead]
  split <;> rfl

lemma functionHead_congr {f g : Function} (hkind : f.kind = g.kind) (hname : f.name = g.name) :
    p.functionHead f = p.functionHead g := by
  rw [functionHead, functionHead, hkind, hname]

/-- At the left margin lines are written as they are. -/
lemma toList_lines_write {p : Printer} (hdepth : p.depth = 0) (lines : List String) :
    (p.write lines).lines.toList = p.lines.toList ++ lines := by
  have hindented : p.indented = id := by
    funext line
    by_cases hline : line = "" <;> simp [indented, hdepth, hline]
  rw [write, hindented, List.map_id, Array.toList_appendList]

lemma toList_lines_write_start (style : Style) (lines : List String) :
    ((start style).write lines).lines.toList = lines :=
  toList_lines_write rfl lines

end Printer

/-! ## Trees on a sheet of their own -/

/-- The lines of a node that is printed for itself. -/
def Node.printedLines (style : Style) (n : Node) : List String :=
  (Printer.visitor.node n (Printer.start style)).lines.toList

def Block.printedLines (style : Style) (b : Block) : List String :=
  (Printer.visitor.block b (Printer.start style)).lines.toList

lemma Node.printedLines_eq (style : Style) (n : Node) :
    n.printedLines style = style.layout.node n := by
  rw [printedLines, Printer.visitor_node, Printer.toList_lines_write_start]
  rfl

lemma Block.printedLines_eq (style : Style) (b : Block) :
    b.printedLines style = style.layout.block b := by
  rw [printedLines, Printer.visitor_block, Printer.toList_lines_write_start]
  rfl

lemma Frame.lines_header (f : Frame) : Text.lines (f.token ++ " \x7b") = [f.token ++ " \x7b"] := by
  cases f <;> rfl

lemma Text.intercalate_append_lineFeed (line : String) (lines : List String) :
    "\n".intercalate (line :: lines) ++ "\n" =
      String.join ((line :: lines).map (· ++ "\n")) := by
  induction lines generalizing line with
  | nil => simp [String.join_cons]
  | cons next lines ih =>
    rw [String.intercalate_cons_cons, List.map_cons, String.join_cons, ← ih,
      String.append_assoc]

/-- Where the first line is not empty, the text is the lines, each with a line feed at its end. -/
lemma Printer.finish_eq_join {p : Printer} {line : String} {rest : List String}
    (hlines : p.lines.toList = line :: rest) (hline : line ≠ "") :
    p.finish = String.join (p.lines.toList.map (· ++ "\n")) := by
  have hfinish : p.finish = if "\n".intercalate p.lines.toList = "" then ""
      else "\n".intercalate p.lines.toList ++ "\n" := rfl
  have hne : "\n".intercalate (line :: rest) ≠ "" := by
    cases rest with
    | nil => simpa using hline
    | cons next rest => simp [String.intercalate_cons_cons]
  rw [hfinish, hlines, if_neg hne, Text.intercalate_append_lineFeed]

lemma Block.print_eq_join (style : Style) (b : Block) :
    b.print style = String.join ((b.printedLines style).map (· ++ "\n")) := by
  -- the header makes the first line one that is not empty
  obtain ⟨rest, hrest⟩ : ∃ rest, b.printedLines style = (b.frame.token ++ " \x7b") :: rest := by
    rw [Block.printedLines_eq, Layout.block, Layout.enclosed, Frame.lines_header]
    exact ⟨_, rfl⟩
  have hheader : b.frame.token ++ " \x7b" ≠ "" := by simp
  rw [Block.print, ← Printer.block_visitor]
  exact Printer.finish_eq_join hrest hheader

namespace Printer

/-- Printing does not look at what stands before it. From whatever state, a node is printed as the
lines that it has on a sheet of its own, each of them at the present depth, and the state is
otherwise as before. So a block is its header, the lines of its nodes one level deeper, and the
closing brace. -/
theorem visitor_writes_printedLines :
    (∀ (n : Node) (p : Printer), visitor.node n p = p.write (n.printedLines p.style)) ∧
    ∀ (b : Block) (p : Printer),
      visitor.block b p =
        { p with
          lines := p.lines ++ (p.indented (b.frame.token ++ " \x7b") ::
            ((b.body.flatMap (Node.printedLines p.style)).map p.deeper.indented ++
              [p.indented "\x7d"])) } := by
  constructor
  · intro n p
    rw [visitor_node, Node.printedLines_eq]
  · intro b p
    have hnodes : b.body.flatMap (Node.printedLines p.style) = p.style.layout.inside b := by
      rw [Layout.inside_eq, Layout.nodes_eq_flatMap]
      congr 1
      exact funext (Node.printedLines_eq p.style)
    have hdeeper : p.deeper.indented = p.indented ∘ p.style.layout.shift :=
      funext p.indented_deeper
    rw [visitor_block, hnodes, Layout.block, Layout.enclosed, Frame.lines_header, hdeeper]
    simp [write]

end Printer

end TvmAssembly
