import Mathlib.Tactic.Lemma
import TvmAssembly.Identity.Preimage

/-!
# Code without annotations

Locations, comments and the names of functions say nothing to the machine. `Block.unannotated` and
its companions take them away at every depth, and what a tree is written down as for its identity
stays the same: annotations leave no mark.
-/

namespace TvmAssembly

def Leaf.unannotated : Leaf → Leaf
  | .instruction i => .instruction { i with line := i.line.withoutComment }
  | .exit e => .exit { e with line := e.line.withoutComment }
  | l => l

def Node.isLocation : Node → Bool
  | .leaf (.location _) => true
  | _ => false

mutual

/-- Without the locations and comments of everything in the block, however deep. -/
def Block.unannotated : Block → Block
  | ⟨frame, body⟩ => ⟨frame, unannotatedBody body⟩
  termination_by structural b => b

def Node.unannotated : Node → Node
  | .leaf l => .leaf l.unannotated
  | .sealed b s => .sealed b.unannotated s
  | .data k t c => .data k t (unannotatedChild c)
  | .block b => .block b.unannotated
  | .conditional k t f => .conditional k t.unannotated (unannotatedChild f)
  | .repeatLoop k b => .repeatLoop k b.unannotated
  | .whileLoop c b p => .whileLoop c.unannotated b.unannotated p
  termination_by structural n => n

def unannotatedChild : Option Block → Option Block
  | none => none
  | some b => some b.unannotated
  termination_by structural c => c

def unannotatedBody : List Node → List Node
  | [] => []
  | n :: ns => if n.isLocation then unannotatedBody ns else n.unannotated :: unannotatedBody ns
  termination_by structural ns => ns

end

/-- A function is told apart by its kind, its declared effect and its code. -/
def Function.unannotated (f : Function) : Function :=
  { f with name := "", block := f.block.unannotated }

theorem unannotatedBody_cons (n : Node) (ns : List Node) :
    unannotatedBody (n :: ns) =
      if n.isLocation then unannotatedBody ns else n.unannotated :: unannotatedBody ns := by
  rw [unannotatedBody]

@[simp]
theorem isSome_unannotatedChild (c : Option Block) : (unannotatedChild c).isSome = c.isSome := by
  cases c <;> simp [unannotatedChild]

namespace Identity

def nodeMarks (n : Node) : Bytes := n.events.flatMap mark

def blockMarks (b : Block) : Bytes := b.events.flatMap mark

def childMarks (c : Option Block) : Bytes := (childEvents c).flatMap mark

def bodyMarks (ns : List Node) : Bytes := (bodyEvents ns).flatMap mark

section Equations

variable (b c : Block) (child : Option Block)

lemma nodeMarks_leaf (l : Leaf) : nodeMarks (.leaf l) = leafMark l := by
  simp [nodeMarks, Node.events, mark]

lemma nodeMarks_sealed (s : Signature) :
    nodeMarks (.sealed b s) = 0x06 :: (signature s ++ blockMarks b) := by
  simp [nodeMarks, blockMarks, Node.events, mark, containerMark]

lemma nodeMarks_data (k : DataKind) (t : String) :
    nodeMarks (.data k t child) =
      0x07 :: position k.index :: (text t ++ (Bytes.ofBool child.isSome ++ childMarks child)) := by
  simp [nodeMarks, childMarks, Node.events, mark, containerMark]

lemma nodeMarks_block : nodeMarks (.block b) = blockMarks b := rfl

lemma nodeMarks_conditional (k : ConditionalKind) :
    nodeMarks (.conditional k b child) =
      0x0A :: position k.index :: (blockMarks b ++ childMarks child) := by
  simp [nodeMarks, blockMarks, childMarks, Node.events, mark, containerMark]

lemma nodeMarks_repeatLoop (k : RepeatKind) :
    nodeMarks (.repeatLoop k b) = 0x0B :: position k.index :: blockMarks b := by
  simp [nodeMarks, blockMarks, Node.events, mark, containerMark]

lemma nodeMarks_whileLoop (p : Bool) :
    nodeMarks (.whileLoop b c p) = 0x0C :: (Bytes.ofBool p ++ (blockMarks b ++ blockMarks c)) := by
  simp [nodeMarks, blockMarks, Node.events, mark, containerMark]

lemma blockMarks_eq :
    blockMarks b = 0x08 :: position b.frame.index :: (bodyMarks b.body ++ [blockEnd]) := by
  obtain ⟨frame, body⟩ := b
  simp [blockMarks, bodyMarks, Block.events, mark, containerMark]

lemma childMarks_some : childMarks (some b) = blockMarks b := rfl

lemma bodyMarks_cons (n : Node) (ns : List Node) :
    bodyMarks (n :: ns) = nodeMarks n ++ bodyMarks ns := by
  simp [bodyMarks, nodeMarks, bodyEvents]

end Equations

lemma nodeMarks_of_isLocation {n : Node} (h : n.isLocation = true) : nodeMarks n = [] := by
  cases n with
  | leaf l =>
    cases l with
    | location l => rfl
    | _ => cases h
  | _ => cases h

lemma leafMark_unannotated (l : Leaf) : leafMark l.unannotated = leafMark l := by
  cases l <;> rfl

mutual

theorem nodeMarks_unannotated : (n : Node) → nodeMarks n.unannotated = nodeMarks n
  | .leaf l => by rw [Node.unannotated, nodeMarks_leaf, nodeMarks_leaf, leafMark_unannotated]
  | .sealed b s => by
    rw [Node.unannotated, nodeMarks_sealed, nodeMarks_sealed, blockMarks_unannotated b]
  | .data k t c => by
    rw [Node.unannotated, nodeMarks_data, nodeMarks_data, isSome_unannotatedChild,
      childMarks_unannotated c]
  | .block b => by
    rw [Node.unannotated, nodeMarks_block, nodeMarks_block, blockMarks_unannotated b]
  | .conditional k t f => by
    rw [Node.unannotated, nodeMarks_conditional, nodeMarks_conditional, blockMarks_unannotated t,
      childMarks_unannotated f]
  | .repeatLoop k b => by
    rw [Node.unannotated, nodeMarks_repeatLoop, nodeMarks_repeatLoop, blockMarks_unannotated b]
  | .whileLoop c b p => by
    rw [Node.unannotated, nodeMarks_whileLoop, nodeMarks_whileLoop, blockMarks_unannotated c,
      blockMarks_unannotated b]
  termination_by structural n => n

/-- What a block is written down as is its code, without its annotations. -/
theorem blockMarks_unannotated : (b : Block) → blockMarks b.unannotated = blockMarks b
  | ⟨frame, body⟩ => by
    rw [Block.unannotated, blockMarks_eq, blockMarks_eq, bodyMarks_unannotated body]
  termination_by structural b => b

theorem childMarks_unannotated :
    (c : Option Block) → childMarks (unannotatedChild c) = childMarks c
  | none => by rw [unannotatedChild]
  | some b => by
    rw [unannotatedChild, childMarks_some, childMarks_some, blockMarks_unannotated b]
  termination_by structural c => c

theorem bodyMarks_unannotated :
    (ns : List Node) → bodyMarks (unannotatedBody ns) = bodyMarks ns
  | [] => by rw [unannotatedBody]
  | n :: ns => by
    have hn := nodeMarks_unannotated n
    have hns := bodyMarks_unannotated ns
    rw [unannotatedBody_cons, bodyMarks_cons]
    by_cases h : n.isLocation = true
    · rw [if_pos h, nodeMarks_of_isLocation h, hns, List.nil_append]
    · rw [if_neg h, bodyMarks_cons, hn, hns]
  termination_by structural ns => ns

end

end Identity

end TvmAssembly
