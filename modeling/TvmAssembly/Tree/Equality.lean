import TvmAssembly.Tree.Basic

/-!
# Equality of trees

Trees are compared node by node. `Node.same_iff` and its companions say that the comparison decides
equality.
-/

namespace TvmAssembly

mutual

def Node.same : Node → Node → Bool
  | .leaf a, .leaf b => a = b
  | .sealed a s, .sealed b t => a.same b && s = t
  | .data k s a, .data l t b => k = l && s = t && sameChild a b
  | .block a, .block b => a.same b
  | .conditional k a c, .conditional l b d => k = l && a.same b && sameChild c d
  | .repeatLoop k a, .repeatLoop l b => k = l && a.same b
  | .whileLoop a c p, .whileLoop b d q => a.same b && c.same d && p = q
  | _, _ => false
  termination_by structural n => n

def Block.same : Block → Block → Bool
  | ⟨f, ns⟩, ⟨g, ms⟩ => f = g && sameNodes ns ms
  termination_by structural b => b

def sameChild : Option Block → Option Block → Bool
  | none, none => true
  | some a, some b => a.same b
  | _, _ => false
  termination_by structural c => c

def sameNodes : List Node → List Node → Bool
  | [], [] => true
  | n :: ns, m :: ms => n.same m && sameNodes ns ms
  | _, _ => false
  termination_by structural ns => ns

end

mutual

theorem Node.same_iff : (a b : Node) → (a.same b = true ↔ a = b)
  | .leaf _, b => by cases b <;> simp [Node.same]
  | .sealed a _, b => by cases b <;> simp [Node.same, Block.same_iff a]
  | .data _ _ a, b => by cases b <;> simp [Node.same, sameChild_iff a, and_assoc]
  | .block a, b => by cases b <;> simp [Node.same, Block.same_iff a]
  | .conditional _ a c, b => by
    cases b <;> simp [Node.same, Block.same_iff a, sameChild_iff c, and_assoc]
  | .repeatLoop _ a, b => by cases b <;> simp [Node.same, Block.same_iff a]
  | .whileLoop a c _, b => by
    cases b <;> simp [Node.same, Block.same_iff a, Block.same_iff c, and_assoc]
  termination_by structural a => a

theorem Block.same_iff : (a b : Block) → (a.same b = true ↔ a = b)
  | ⟨_, ns⟩, ⟨_, ms⟩ => by simp [Block.same, sameNodes_iff ns ms]
  termination_by structural a => a

theorem sameChild_iff : (a b : Option Block) → (sameChild a b = true ↔ a = b)
  | none, b => by cases b <;> simp [sameChild]
  | some a, b => by cases b <;> simp [sameChild, Block.same_iff a]
  termination_by structural a => a

theorem sameNodes_iff : (ns ms : List Node) → (sameNodes ns ms = true ↔ ns = ms)
  | [], ms => by cases ms <;> simp [sameNodes]
  | n :: ns, ms => by cases ms <;> simp [sameNodes, Node.same_iff n, sameNodes_iff ns]
  termination_by structural ns => ns

end

instance : DecidableEq Block := fun a b => decidable_of_iff _ (Block.same_iff a b)

instance : DecidableEq Node := fun a b => decidable_of_iff _ (Node.same_iff a b)

deriving instance DecidableEq for Sealed, DataPush, Conditional, RepeatLoop, WhileLoop, Function,
  Program

end TvmAssembly
