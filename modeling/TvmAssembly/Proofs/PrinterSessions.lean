import TvmAssembly.Proofs.PrinterCalls
import TvmAssembly.Proofs.VerbatimLines

/-!
# Sessions with a printer

A printer may be called in any order: whole trees at any depth, and single callbacks by themselves,
so that blocks are opened and never closed, or closed and never opened. A callback prints pieces as
a tree does, whether or not they are balanced (`Printer.call_eq_print`). The head of a function
moves the printer one level in and its code brings the printer back to that level, so at the end of
the function there is a level to come out of. Only a block that is opened or closed by itself leaves
the printer at another depth.
-/

namespace TvmAssembly

/-- A call of the printer from outside: it is led through a tree, or told of one event. -/
inductive Call where
  | accept (t : Tree)
  | direct (e : Event)

def Container.pieces : Container → List Piece
  | .program p => p.headPieces
  | .function f => f.pieces
  | .block b => [.opening b.frame.token]
  | .sealed _ => []
  | .data d => d.node.pieces
  | .conditional c => c.node.pieces
  | .repeatLoop l => l.node.pieces
  | .whileLoop l => l.node.pieces

def Event.pieces : Event → List Piece
  | .leaf l => [.leaf l]
  | .enter c => c.pieces
  | .leave _ => [.closing]

def Call.pieces : Call → List Piece
  | .accept t => t.pieces
  | .direct e => e.pieces

/-- A counter of open blocks hears of those that are opened and closed by themselves. -/
def Call.count (depth : ℕ) : Call → ℕ
  | .direct (.enter (.block _)) => depth + 1
  | .direct (.leave _) => depth - 1
  | _ => depth

/-! ## Pieces that end no function -/

lemma functionEnd_notMem_enclosed (header : String) {code : List Piece}
    (h : .functionEnd ∉ code) : .functionEnd ∉ enclosed header code := by
  simp [enclosed, h]

mutual

lemma Node.functionEnd_notMem : (n : Node) → .functionEnd ∉ n.pieces
  | .leaf _ => by simp [Node.pieces]
  | .sealed b _ => functionEnd_notMem_enclosed _ b.functionEnd_notMem
  | .data k _ c => by
    have hchild := functionEnd_notMem_child c
    rw [Node.pieces]
    split <;> simp [hchild]
  | .block b => functionEnd_notMem_enclosed _ b.functionEnd_notMem
  | .conditional _ t (some f) => by
    have ht (header : String) := functionEnd_notMem_enclosed header t.functionEnd_notMem
    have hf (header : String) := functionEnd_notMem_enclosed header f.functionEnd_notMem
    simp [Node.pieces, ht, hf]
  | .conditional _ t none => by
    have ht (header : String) := functionEnd_notMem_enclosed header t.functionEnd_notMem
    rw [Node.pieces]
    split
    · simp [ht]
    · split <;> simp [ht]
  | .repeatLoop _ b => by
    have hb (header : String) := functionEnd_notMem_enclosed header b.functionEnd_notMem
    simp [Node.pieces, hb]
  | .whileLoop c b _ => by
    have hc (header : String) := functionEnd_notMem_enclosed header c.functionEnd_notMem
    have hb (header : String) := functionEnd_notMem_enclosed header b.functionEnd_notMem
    simp [Node.pieces, hc, hb]
  termination_by structural n => n

lemma Block.functionEnd_notMem : (b : Block) → .functionEnd ∉ b.bodyPieces
  | ⟨_, ns⟩ => functionEnd_notMem_nodes ns
  termination_by structural b => b

lemma functionEnd_notMem_child : (c : Option Block) → .functionEnd ∉ childBodyPieces c
  | none => List.not_mem_nil
  | some b => b.functionEnd_notMem
  termination_by structural c => c

lemma functionEnd_notMem_nodes : (ns : List Node) → .functionEnd ∉ piecesOf ns
  | [] => List.not_mem_nil
  | n :: ns => List.not_mem_append n.functionEnd_notMem (functionEnd_notMem_nodes ns)
  termination_by structural ns => ns

end

lemma Program.functionEnd_notMem_headPieces (p : Program) : .functionEnd ∉ p.headPieces := by
  have hgap : Piece.functionEnd ∉
      (if p.pragmas.isEmpty || p.functions.isEmpty then [] else [Piece.blank]) := by
    split <;> simp
  exact List.not_mem_append (by simp) hgap

namespace Printer

variable (p : Printer)

/-- The printer after a call. Whether it wants to be led on is not asked. -/
def call (p : Printer) : Call → Printer
  | .accept t => visitor.tree t p
  | .direct e => visitor.step p e

/-- A new printer after calls. -/
def session (style : Style) (calls : List Call) : Printer :=
  calls.foldl call (start style)

lemma call_eq_print (c : Call) : p.call c = p.print c.pieces := by
  cases c with
  | accept t => exact p.tree_visitor t
  | direct e =>
    cases e with
    | leaf l => rfl
    | enter c => cases c <;> rfl
    | leave b => rfl

lemma foldl_call_eq_print (calls : List Call) :
    calls.foldl call p = p.print (calls.flatMap Call.pieces) := by
  induction calls generalizing p with
  | nil => rfl
  | cons c calls ih => rw [List.foldl_cons, ih, call_eq_print, List.flatMap_cons, print_append]

/-! ## Levels -/

/-- A piece is printed, but no function ends where there is no level to come out of. The end of a
block is printed at any depth. -/
def piece? : Piece → Option Printer
  | .functionEnd => if p.depth = 0 then none else some p.shallower
  | q => some (p.piece q)

def print? (pieces : List Piece) : Option Printer :=
  pieces.foldlM piece? p

variable {p}

lemma print?_eq_print_of_notMem {pieces : List Piece} (h : .functionEnd ∉ pieces) :
    p.print? pieces = some (p.print pieces) := by
  induction pieces generalizing p with
  | nil => rfl
  | cons q pieces ih =>
    obtain ⟨hq, hrest⟩ := not_or.mp (mt List.mem_cons.mpr h)
    have hpiece : p.piece? q = some (p.piece q) := by
      cases q with
      | functionEnd => exact absurd rfl hq
      | leaf | literal | text | blank | opening | closing | functionHead => rfl
    rw [print?, List.foldlM_cons, hpiece]
    exact ih hrest

lemma print?_append_eq_print {as bs : List Piece} (ha : p.print? as = some (p.print as))
    (hb : (p.print as).print? bs = some ((p.print as).print bs)) :
    p.print? (as ++ bs) = some (p.print (as ++ bs)) := by
  rw [print_append, ← hb, print?, List.foldlM_append, ← print?, ha]
  rfl

variable (p)

lemma depth_functionHead (f : Function) : (p.functionHead f).depth = p.depth + 1 := by
  rw [functionHead]
  split <;> rfl

lemma depth_print_headPieces (program : Program) :
    (p.print program.headPieces).depth = p.depth := by
  rw [Program.headPieces, print_append, print_pragmas]
  split <;> rfl

/-- Printed at any depth, the pieces come back to it, and the functions among them do not come out
of more levels than they went into. -/
structure Balanced (pieces : List Piece) : Prop where
  depth (p : Printer) : (p.print pieces).depth = p.depth
  print? (p : Printer) : p.print? pieces = some (p.print pieces)

namespace Balanced

lemma nil : Balanced [] := ⟨fun _ => rfl, fun _ => rfl⟩

lemma append {as bs : List Piece} (ha : Balanced as) (hb : Balanced bs) : Balanced (as ++ bs) where
  depth p := by rw [print_append, hb.depth, ha.depth]
  print? p := print?_append_eq_print (ha.print? p) (hb.print? _)

lemma node (n : Node) : Balanced n.pieces where
  depth _ := by
    rw [print_node]
    rfl
  print? _ := print?_eq_print_of_notMem n.functionEnd_notMem

/-- The code of a function ends on the level that its head went to. -/
lemma function (f : Function) : Balanced f.pieces where
  depth p := p.depth_print_function f
  print? p := by
    have hpieces : f.pieces = .functionHead f :: f.block.bodyPieces ++ [.functionEnd] := rfl
    have hcode : p.print (.functionHead f :: f.block.bodyPieces) =
        (p.functionHead f).print f.block.bodyPieces := rfl
    have hlevel : (p.print (.functionHead f :: f.block.bodyPieces)).depth ≠ 0 := by
      rw [hcode, print_inside]
      exact (p.depth_functionHead f).trans_ne (Nat.succ_ne_zero p.depth)
    rw [hpieces]
    apply print?_append_eq_print
    · exact print?_eq_print_of_notMem (by simp [f.block.functionEnd_notMem])
    · rw [Printer.print?, List.foldlM_cons, piece?, if_neg hlevel]
      rfl

lemma functions (fs : List Function) : Balanced (fs.flatMap Function.pieces) := by
  induction fs with
  | nil => exact nil
  | cons f fs ih => exact (function f).append ih

lemma headPieces (program : Program) : Balanced program.headPieces where
  depth p := p.depth_print_headPieces program
  print? _ := print?_eq_print_of_notMem program.functionEnd_notMem_headPieces

lemma tree (t : Tree) : Balanced t.pieces := by
  cases t with
  | node n => exact node n
  | function f => exact function f
  | program program => exact (headPieces program).append (functions program.functions)

end Balanced

/-- A call opens a block, or closes one, or has balanced pieces. -/
lemma call_cases (c : Call) :
    (∃ b, c = .direct (.enter (.block b))) ∨ (∃ b, c = .direct (.leave b)) ∨
      Balanced c.pieces ∧ ∀ depth, c.count depth = depth := by
  cases c with
  | accept t => exact .inr (.inr ⟨.tree t, fun _ => rfl⟩)
  | direct e =>
    cases e with
    | leaf l => exact .inr (.inr ⟨.node (.leaf l), fun _ => rfl⟩)
    | enter c =>
      cases c with
      | program program => exact .inr (.inr ⟨.headPieces program, fun _ => rfl⟩)
      | function f => exact .inr (.inr ⟨.function f, fun _ => rfl⟩)
      | block b => exact .inl ⟨b, rfl⟩
      | sealed s => exact .inr (.inr ⟨.nil, fun _ => rfl⟩)
      | data d => exact .inr (.inr ⟨.node d.node, fun _ => rfl⟩)
      | conditional c => exact .inr (.inr ⟨.node c.node, fun _ => rfl⟩)
      | repeatLoop l => exact .inr (.inr ⟨.node l.node, fun _ => rfl⟩)
      | whileLoop l => exact .inr (.inr ⟨.node l.node, fun _ => rfl⟩)
    | leave b => exact .inr (.inl ⟨b, rfl⟩)

lemma depth_call (c : Call) : (p.call c).depth = c.count p.depth := by
  rcases call_cases c with ⟨b, rfl⟩ | ⟨b, rfl⟩ | ⟨hbalanced, hcount⟩
  · rfl
  · rfl
  · rw [call_eq_print, hbalanced.depth, hcount]

lemma print?_call (c : Call) : p.print? c.pieces = some (p.print c.pieces) := by
  rcases call_cases c with ⟨b, rfl⟩ | ⟨b, rfl⟩ | ⟨hbalanced, -⟩
  · rfl
  · rfl
  · exact hbalanced.print? p

/-- The depth after calls is what the counter counts from the depth before them. -/
lemma depth_foldl_call (calls : List Call) :
    (calls.foldl call p).depth = calls.foldl Call.count p.depth := by
  induction calls generalizing p with
  | nil => rfl
  | cons c calls ih => rw [List.foldl_cons, List.foldl_cons, ih, depth_call]

lemma print?_calls (calls : List Call) :
    p.print? (calls.flatMap Call.pieces) = some (p.print (calls.flatMap Call.pieces)) := by
  induction calls generalizing p with
  | nil => rfl
  | cons c calls ih => exact print?_append_eq_print (p.print?_call c) (ih _)

/-! ## Lines that stay -/

lemma lines_prefix_write (lines : List String) :
    p.lines.toList <+: (p.write lines).lines.toList := by
  rw [write, Array.toList_appendList]
  exact List.prefix_append _ _

/-- A piece adds lines, or changes the depth alone. -/
lemma lines_prefix_piece (q : Piece) : p.lines.toList <+: (p.piece q).lines.toList := by
  have hskip : p.lines.toList <+: p.skipLine.lines.toList := by
    rw [skipLine, Array.toList_push]
    exact List.prefix_append _ _
  cases q with
  | leaf l =>
    rw [piece, leaf_eq_write]
    exact p.lines_prefix_write _
  | literal d =>
    by_cases hslice : d.kind = .inlineSlice
    · rw [piece, literal, if_pos hslice]
      exact p.lines_prefix_write _
    · have hopen : p.lines.toList <+: (p.openBlock d.kind.token).lines.toList :=
        p.lines_prefix_write _
      rw [piece, p.literal_eq_write hslice]
      exact hopen.trans (lines_prefix_write _ _)
  | text text => exact p.lines_prefix_write _
  | blank => exact hskip
  | opening header => exact p.lines_prefix_write _
  | closing => exact p.shallower.lines_prefix_write _
  | functionHead f =>
    rw [piece, functionHead]
    split
    · exact lines_prefix_write _ _
    · exact hskip.trans (lines_prefix_write _ _)
  | functionEnd => exact List.prefix_refl _

lemma lines_prefix_print (pieces : List Piece) :
    p.lines.toList <+: (p.print pieces).lines.toList := by
  induction pieces generalizing p with
  | nil => exact List.prefix_refl _
  | cons q pieces ih => exact (p.lines_prefix_piece q).trans (ih _)

variable {p}

lemma finish_eq_empty_iff : p.finish = "" ↔ p.lines.toList = [] ∨ p.lines.toList = [""] := by
  rw [← Text.intercalate_eq_empty_iff, finish_eq_ite]
  by_cases hempty : "\n".intercalate p.lines.toList = ""
  · simp [hempty]
  · simp [hempty]

/-- The text of lines is extended where lines are added, also where there is no text because there
is but an empty line. -/
lemma finish_append_of_prefix {q : Printer} (h : p.lines.toList <+: q.lines.toList) :
    ∃ rest, q.finish = p.finish ++ rest := by
  by_cases hempty : p.finish = ""
  · exact ⟨q.finish, by rw [hempty, String.empty_append]⟩
  · have hfilled : q.finish ≠ "" := by
      intro hq
      apply hempty
      rw [finish_eq_empty_iff] at hq ⊢
      rcases hq with hnone | hsingle
      · rw [hnone] at h
        exact .inl (List.prefix_nil.mp h)
      · rw [hsingle] at h
        rcases List.prefix_cons_iff.mp h with hnone | ⟨rest, hcons, hrest⟩
        · exact .inl hnone
        · rw [hcons, List.prefix_nil.mp hrest]
          exact .inr rfl
    obtain ⟨more, hmore⟩ := h
    refine ⟨Text.unlines more, ?_⟩
    rw [p.finish_eq_empty_or_unlines.resolve_left hempty,
      q.finish_eq_empty_or_unlines.resolve_left hfilled, ← hmore, Text.unlines_append]

/-- Whatever a printer is called for, each function that ends comes out of a level that its head
went to. The printer is as deep as a counter of the blocks that are opened and closed by themselves
says, where closing without an open block does nothing. What was printed stays: later calls only add
lines, and only add to the text. -/
theorem session_keeps_text_and_depth (style : Style) (calls later : List Call) :
    (start style).print? (calls.flatMap Call.pieces) = some (session style calls) ∧
      (session style calls).depth = calls.foldl Call.count 0 ∧
      (session style calls).lines.toList <+: (session style (calls ++ later)).lines.toList ∧
      ∃ rest, (session style (calls ++ later)).finish = (session style calls).finish ++ rest := by
  have hsession : session style calls = (start style).print (calls.flatMap Call.pieces) :=
    foldl_call_eq_print _ calls
  have hlater : session style (calls ++ later) =
      (session style calls).print (later.flatMap Call.pieces) := by
    rw [session, List.foldl_append, foldl_call_eq_print]
    rfl
  have hlines : (session style calls).lines.toList <+:
      (session style (calls ++ later)).lines.toList := by
    rw [hlater]
    exact lines_prefix_print _ _
  refine ⟨?_, (start style).depth_foldl_call calls, hlines, finish_append_of_prefix hlines⟩
  rw [hsession]
  exact (start style).print?_calls calls

end Printer

end TvmAssembly
