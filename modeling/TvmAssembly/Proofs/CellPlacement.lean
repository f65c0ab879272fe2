import TvmAssembly.Proofs.BuiltTrees

/-!
# Where cells stand

A cell adds a reference to the cell around it, so it belongs in the code of a literal. The factories
do not see to that: `Build.dataPush` gives no cell, but `Build.cell` does, and a block takes any
nodes. `Block.InPlace` and its companions hold of the trees that are built with `Build.cell` for the
code of literals alone, and these are exactly the built trees in which every cell is enclosed.
-/

namespace TvmAssembly

mutual

/-- The literals that stand in no other literal, in order. -/
def Node.outerLiterals : Node → List DataPush
  | .leaf _ => []
  | .sealed b _ => b.outerLiterals
  | .data k t c => [⟨k, t, c⟩]
  | .block b => b.outerLiterals
  | .conditional _ t f => t.outerLiterals ++ childOuterLiterals f
  | .repeatLoop _ b => b.outerLiterals
  | .whileLoop c b _ => c.outerLiterals ++ b.outerLiterals
  termination_by structural n => n

def Block.outerLiterals : Block → List DataPush
  | ⟨_, ns⟩ => bodyOuterLiterals ns
  termination_by structural b => b

def childOuterLiterals : Option Block → List DataPush
  | none => []
  | some b => b.outerLiterals
  termination_by structural c => c

def bodyOuterLiterals : List Node → List DataPush
  | [] => []
  | n :: ns => n.outerLiterals ++ bodyOuterLiterals ns
  termination_by structural ns => ns

end

/-- No cell stands outside the code of a literal. -/
def Block.CellsEnclosed (b : Block) : Prop := ∀ d ∈ b.outerLiterals, d.kind ≠ .nestedCell

def Node.CellsEnclosed (n : Node) : Prop := ∀ d ∈ n.outerLiterals, d.kind ≠ .nestedCell

instance (b : Block) : Decidable b.CellsEnclosed := List.decidableBAll _ _

/-- The literal that a walk enters, if any. -/
def Event.literal? : Event → Option DataPush
  | .enter (.data d) => some d
  | _ => none

/-- All literals of the block at any depth, as a walk meets them. -/
def Block.literals (b : Block) : List DataPush := b.events.filterMap Event.literal?

/-- The literal and all that stand in its code. -/
def DataPush.literals (d : DataPush) : List DataPush := d :: d.child.elim [] Block.literals

mutual

/-- Each literal of the node is an outer one or stands in the code of an outer one. -/
lemma Node.literals_eq :
    (n : Node) → n.events.filterMap Event.literal? = n.outerLiterals.flatMap DataPush.literals
  | .leaf _ => rfl
  | .sealed b _ => Block.literals_eq b
  | .data k t none => rfl
  | .data k t (some b) => (List.append_nil (DataPush.literals ⟨k, t, some b⟩)).symm
  | .block b => Block.literals_eq b
  | .conditional k t f => by
    rw [Node.outerLiterals, List.flatMap_append, ← Block.literals_eq t, ← childLiterals_eq f,
      ← List.filterMap_append]
    rfl
  | .repeatLoop _ b => Block.literals_eq b
  | .whileLoop c b _ => by
    rw [Node.outerLiterals, List.flatMap_append, ← Block.literals_eq c, ← Block.literals_eq b,
      ← List.filterMap_append]
    rfl
  termination_by structural n => n

lemma Block.literals_eq :
    (b : Block) → b.events.filterMap Event.literal? = b.outerLiterals.flatMap DataPush.literals
  | ⟨f, ns⟩ => by
    rw [Block.events, List.filterMap_cons_none rfl, List.filterMap_append, bodyLiterals_eq ns]
    exact List.append_nil _
  termination_by structural b => b

lemma childLiterals_eq : (c : Option Block) →
    (childEvents c).filterMap Event.literal? = (childOuterLiterals c).flatMap DataPush.literals
  | none => rfl
  | some b => Block.literals_eq b
  termination_by structural c => c

lemma bodyLiterals_eq : (ns : List Node) →
    (bodyEvents ns).filterMap Event.literal? = (bodyOuterLiterals ns).flatMap DataPush.literals
  | [] => rfl
  | n :: ns => by
    rw [bodyEvents, List.filterMap_append, Node.literals_eq n, bodyLiterals_eq ns,
      ← List.flatMap_append]
    rfl
  termination_by structural ns => ns

end

/-- Which literals are the outer ones can be told from all of them. -/
lemma DataPush.flatMap_literals_injective :
    Function.Injective fun outer : List DataPush => outer.flatMap literals := by
  intro outer
  induction outer with
  | nil =>
    rintro (- | ⟨d, ds⟩) h
    · rfl
    · cases h
  | cons d ds ih =>
    rintro (- | ⟨d', ds'⟩) h
    · cases h
    · simp only [List.flatMap_cons, literals, List.cons_append, List.cons.injEq] at h
      obtain ⟨rfl, h⟩ := h
      rw [ih (List.append_cancel_left h)]

lemma bodyOuterLiterals_eq_flatMap (ns : List Node) :
    bodyOuterLiterals ns = ns.flatMap Node.outerLiterals := by
  induction ns with
  | nil => rfl
  | cons n ns ih => rw [bodyOuterLiterals, ih, List.flatMap_cons]

/-- Cells are enclosed in a block if they are in each of its nodes. -/
lemma Block.cellsEnclosed_iff {frame : Frame} {body : List Node} :
    (Block.mk frame body).CellsEnclosed ↔ ∀ n ∈ body, n.CellsEnclosed := by
  simp only [CellsEnclosed, Node.CellsEnclosed, outerLiterals, bodyOuterLiterals_eq_flatMap,
    List.mem_flatMap]
  constructor
  · intro h n hn d hd
    exact h d ⟨n, hn, hd⟩
  · rintro h d ⟨n, hn, hd⟩
    exact h n hn d hd

lemma Conditional.cellsEnclosed_iff {c : Conditional} :
    c.node.CellsEnclosed ↔ ∀ arm ∈ c.arms, arm.CellsEnclosed := by
  obtain ⟨kind, trueArm, falseArm⟩ := c
  cases falseArm <;>
    simp [Node.CellsEnclosed, Block.CellsEnclosed, node, arms, Node.outerLiterals,
      childOuterLiterals, or_imp, forall_and]

lemma Conditional.cellsEnclosed_invert_iff {c : Conditional} :
    c.invert.node.CellsEnclosed ↔ c.node.CellsEnclosed := by
  simp only [cellsEnclosed_iff, mem_arms_invert]

lemma DataPush.cellsEnclosed_iff {d : DataPush} :
    d.node.CellsEnclosed ↔ d.kind ≠ .nestedCell := by
  simp [Node.CellsEnclosed, node, Node.outerLiterals]

lemma WhileLoop.cellsEnclosed_iff {l : WhileLoop} :
    l.node.CellsEnclosed ↔ l.condition.CellsEnclosed ∧ l.body.CellsEnclosed := by
  simp [Node.CellsEnclosed, Block.CellsEnclosed, node, Node.outerLiterals, or_imp, forall_and]

mutual

/-- Blocks of built nodes, where a cell is put nowhere but in the code of a literal. -/
inductive Block.InPlace : Block → Prop
  | block (frame : Frame) {body : List Node} (h : ∀ n ∈ body, Node.InPlace n) :
      Block.InPlace (Build.block frame body)

inductive Node.InPlace : Node → Prop
  | leaf {l : Leaf} (h : l.Built) : Node.InPlace (.leaf l)
  | sealed {b : Block} (h : Block.InPlace b) (signature : Signature) :
      Node.InPlace (Build.sealed b signature).node
  | dataPush {kind : DataKind} {text : String} {child : Option Block} {d : DataPush}
      (hc : ∀ b, child = some b → b.Built) (h : Build.dataPush kind text child = .ok d) :
      Node.InPlace d.node
  | reference {text : String} {d : DataPush} (h : Build.reference text = .ok d) :
      Node.InPlace d.node
  | block {b : Block} (h : Block.InPlace b) : Node.InPlace (.block b)
  | conditional {c : Conditional} (h : Conditional.InPlace c) : Node.InPlace c.node
  | counted {b : Block} (h : Block.InPlace b) : Node.InPlace (Build.counted b).node
  | untilTrue {b : Block} (h : Block.InPlace b) : Node.InPlace (Build.untilTrue b).node
  | whileLoop {condition body : Block} (hc : Block.InPlace condition) (hb : Block.InPlace body)
      (canBreak : Bool) : Node.InPlace (Build.whileLoop condition body canBreak).node

inductive Conditional.InPlace : Conditional → Prop
  | conditional {kind : ConditionalKind} {trueArm : Block} {falseArm : Option Block}
      {c : Conditional} (ht : Block.InPlace trueArm)
      (hf : ∀ b, falseArm = some b → Block.InPlace b)
      (h : Build.conditional kind trueArm falseArm = .ok c) : Conditional.InPlace c
  | invert {c : Conditional} (h : Conditional.InPlace c) : Conditional.InPlace c.invert

end

inductive Function.InPlace : Function → Prop
  | function {name : String} {kind : FunctionKind} {effect : StackEffect} {block : Block}
      {f : Function} (hb : block.InPlace) (h : Build.function name kind effect block = .ok f) :
      InPlace f

def Program.InPlace (p : Program) : Prop := ∀ f ∈ p.functions, f.InPlace

mutual

lemma Block.InPlace.built {b : Block} (h : b.InPlace) : b.Built :=
  match b, h with
  | _, .block frame h => .block frame fun n hn => (h n hn).built

lemma Node.InPlace.built {n : Node} (h : n.InPlace) : n.Built :=
  match n, h with
  | _, .leaf h => .leaf h
  | _, .sealed h signature => .sealed h.built signature
  | _, .dataPush hc h => .data (.dataPush hc h)
  | _, .reference h => .data (.reference h)
  | _, .block h => .block h.built
  | _, .conditional h => .conditional h.built
  | _, .counted h => .counted h.built
  | _, .untilTrue h => .untilTrue h.built
  | _, .whileLoop hc hb canBreak => .whileLoop hc.built hb.built canBreak

lemma Conditional.InPlace.built {c : Conditional} (h : c.InPlace) : c.Built :=
  match c, h with
  | _, .conditional ht hf h => .conditional ht.built (fun b hb => (hf b hb).built) h
  | _, .invert h => .invert h.built

end

lemma Build.kind_ne_nestedCell_of_dataPush {kind : DataKind} {text : String}
    {child : Option Block} {d : DataPush} (h : Build.dataPush kind text child = .ok d) :
    d.kind ≠ .nestedCell := by
  obtain ⟨hkind, hliteral⟩ := Build.dataPush_eq_ok_iff.mp h
  obtain ⟨rfl, -⟩ := Build.literal_eq_ok_iff.mp hliteral
  exact hkind

mutual

lemma Block.InPlace.cellsEnclosed {b : Block} (h : b.InPlace) : b.CellsEnclosed :=
  match b, h with
  | _, .block _ h => Block.cellsEnclosed_iff.mpr fun n hn => (h n hn).cellsEnclosed

lemma Node.InPlace.cellsEnclosed {n : Node} (h : n.InPlace) : n.CellsEnclosed :=
  match n, h with
  | _, .leaf _ => List.forall_mem_nil _
  | _, .sealed h _ => h.cellsEnclosed
  | _, .dataPush _ h => DataPush.cellsEnclosed_iff.mpr (Build.kind_ne_nestedCell_of_dataPush h)
  | _, .reference h => DataPush.cellsEnclosed_iff.mpr (Build.kind_ne_nestedCell_of_dataPush h)
  | _, .block h => h.cellsEnclosed
  | _, .conditional h => h.cellsEnclosed
  | _, .counted h => h.cellsEnclosed
  | _, .untilTrue h => h.cellsEnclosed
  | _, .whileLoop hc hb _ => WhileLoop.cellsEnclosed_iff.mpr ⟨hc.cellsEnclosed, hb.cellsEnclosed⟩

lemma Conditional.InPlace.cellsEnclosed {c : Conditional} (h : c.InPlace) :
    c.node.CellsEnclosed :=
  match c, h with
  | _, .conditional ht hf h => by
    have htrue := ht.cellsEnclosed
    have hfalse := fun b hb => (hf b hb).cellsEnclosed
    refine Conditional.cellsEnclosed_iff.mpr fun arm harm => ?_
    rw [(Build.conditional_eq_ok_iff.mp h).1] at harm
    rcases List.mem_cons.mp harm with rfl | harm
    · exact htrue
    · exact hfalse arm (Option.mem_toList.mp harm)
  | _, .invert h => Conditional.cellsEnclosed_invert_iff.mpr h.cellsEnclosed

end

mutual

/-- A built block was built with cells in place if that is where they stand. -/
lemma Block.Built.inPlace {b : Block} (h : b.Built) (he : b.CellsEnclosed) : b.InPlace :=
  match b, h with
  | _, .block frame h =>
    .block frame fun n hn => (h n hn).inPlace (Block.cellsEnclosed_iff.mp he n hn)

lemma Node.Built.inPlace {n : Node} (h : n.Built) (he : n.CellsEnclosed) : n.InPlace :=
  match n, h with
  | _, .leaf h => .leaf h
  | _, .sealed h signature => .sealed (h.inPlace he) signature
  | _, .data (.dataPush hc h) => .dataPush hc h
  | _, .data (.cell hc h) => by
    obtain ⟨rfl, -⟩ := Build.literal_eq_ok_iff.mp h
    exact absurd rfl (DataPush.cellsEnclosed_iff.mp he)
  | _, .data (.reference h) => .reference h
  | _, .block h => .block (h.inPlace he)
  | _, .conditional h => .conditional (h.inPlace he)
  | _, .counted h => .counted (h.inPlace he)
  | _, .untilTrue h => .untilTrue (h.inPlace he)
  | _, .whileLoop hc hb canBreak =>
    have hparts := WhileLoop.cellsEnclosed_iff.mp he
    .whileLoop (hc.inPlace hparts.1) (hb.inPlace hparts.2) canBreak

lemma Conditional.Built.inPlace {c : Conditional} (h : c.Built) (he : c.node.CellsEnclosed) :
    c.InPlace :=
  match c, h with
  | _, .conditional ht hf h => by
    have harms := Conditional.cellsEnclosed_iff.mp he
    rw [(Build.conditional_eq_ok_iff.mp h).1] at harms
    refine .conditional (ht.inPlace (harms _ List.mem_cons_self)) (fun b hb => ?_) h
    exact (hf b hb).inPlace (harms b (List.mem_cons_of_mem _ (Option.mem_toList.mpr hb)))
  | _, .invert h => .invert (h.inPlace (Conditional.cellsEnclosed_invert_iff.mp he))

end

lemma Function.inPlace_iff {f : Function} : f.InPlace ↔ f.Built ∧ f.block.CellsEnclosed := by
  constructor
  · rintro ⟨hb, h⟩
    obtain ⟨rfl, -⟩ := Build.function_eq_ok_iff.mp h
    exact ⟨.function hb.built h, hb.cellsEnclosed⟩
  · rintro ⟨⟨hb, h⟩, he⟩
    obtain ⟨rfl, -⟩ := Build.function_eq_ok_iff.mp h
    exact .function (hb.inPlace he) h

lemma Program.inPlace_iff {p : Program} :
    p.InPlace ↔ p.Built ∧ ∀ f ∈ p.functions, f.block.CellsEnclosed := by
  constructor
  · intro h
    exact ⟨fun f hf => (Function.inPlace_iff.mp (h f hf)).1,
      fun f hf => (Function.inPlace_iff.mp (h f hf)).2⟩
  · rintro ⟨h, he⟩ f hf
    exact Function.inPlace_iff.mpr ⟨h f hf, he f hf⟩

/-- Cells are enclosed if the literals that a walk meets are some that are no cells, each followed
by those of its code. -/
lemma Block.cellsEnclosed_iff_literals {b : Block} :
    b.CellsEnclosed ↔ ∃ outer : List DataPush,
      (∀ d ∈ outer, d.kind ≠ .nestedCell) ∧ b.literals = outer.flatMap DataPush.literals := by
  constructor
  · intro he
    exact ⟨b.outerLiterals, he, b.literals_eq⟩
  · rintro ⟨outer, houter, h⟩
    obtain rfl : outer = b.outerLiterals :=
      DataPush.flatMap_literals_injective (h.symm.trans b.literals_eq)
    exact houter

/-- The functions and programs in which every cell is enclosed are those that are built with
`Build.cell` for the code of literals alone. There the literals that a walk meets are some that are
no cells, each followed by those of its code. -/
theorem cells_enclosed_iff_in_place (f : Function) (p : Program) :
    (f.InPlace ↔ f.Built ∧ f.block.CellsEnclosed) ∧
    (p.InPlace ↔ p.Built ∧ ∀ g ∈ p.functions, g.block.CellsEnclosed) ∧
    (f.block.CellsEnclosed ↔ ∃ outer : List DataPush,
      (∀ d ∈ outer, d.kind ≠ .nestedCell) ∧
        f.block.literals = outer.flatMap DataPush.literals) := by
  refine ⟨Function.inPlace_iff, Program.inPlace_iff, ?_⟩
  exact Block.cellsEnclosed_iff_literals

/-- A function of one cell. -/
def strayCell : Function :=
  ⟨"f", .fragment, ⟨0, 0⟩, ⟨.pushCont, [.data .nestedCell "x\x7b01\x7d" none]⟩⟩

lemma built_strayCell : strayCell.Built := by
  have hcell : Build.cell "x\x7b01\x7d" none = .ok ⟨.nestedCell, "x\x7b01\x7d", none⟩ := rfl
  have hnode : Node.Built (.data .nestedCell "x\x7b01\x7d" none) :=
    .data (.cell (fun _ hb => by cases hb) hcell)
  have hblock : strayCell.block.Built := .block .pushCont (List.forall_mem_singleton.mpr hnode)
  exact .function hblock (Build.function_eq_ok_iff.mpr ⟨rfl, 'f', by decide⟩)

/-- The factories give a function with a cell directly in its block. -/
theorem not_forall_built_cells_enclosed :
    ¬ ∀ f : Function, f.Built → f.block.CellsEnclosed := by
  intro h
  have hcell := h strayCell built_strayCell
  revert hcell
  decide

end TvmAssembly
