import TvmAssembly.Tree.Basic

/-!
# Events of a walk

A walk through a tree is depth first and in order: the true arm before the false one, a condition
before its body, functions and nodes as they stand. It meets each leaf once and enters each
container before what it holds. Only blocks are also left.
-/

namespace TvmAssembly

inductive Container where
  | program (p : Program)
  | function (f : Function)
  | block (b : Block)
  | sealed (s : Sealed)
  | data (d : DataPush)
  | conditional (c : Conditional)
  | repeatLoop (l : RepeatLoop)
  | whileLoop (l : WhileLoop)

inductive Event where
  | leaf (l : Leaf)
  | enter (c : Container)
  | leave (b : Block)

mutual

def Node.events : Node → List Event
  | .leaf l => [.leaf l]
  | .sealed b s => .enter (.sealed ⟨b, s⟩) :: b.events
  | .data k t c => .enter (.data ⟨k, t, c⟩) :: childEvents c
  | .block b => b.events
  | .conditional k t f => .enter (.conditional ⟨k, t, f⟩) :: (t.events ++ childEvents f)
  | .repeatLoop k b => .enter (.repeatLoop ⟨k, b⟩) :: b.events
  | .whileLoop c b p => .enter (.whileLoop ⟨c, b, p⟩) :: (c.events ++ b.events)
  termination_by structural n => n

def Block.events : Block → List Event
  | ⟨f, ns⟩ => .enter (.block ⟨f, ns⟩) :: (bodyEvents ns ++ [.leave ⟨f, ns⟩])
  termination_by structural b => b

def childEvents : Option Block → List Event
  | none => []
  | some b => b.events
  termination_by structural c => c

def bodyEvents : List Node → List Event
  | [] => []
  | n :: ns => n.events ++ bodyEvents ns
  termination_by structural ns => ns

end

def Function.events (f : Function) : List Event :=
  .enter (.function f) :: f.block.events

def Program.events (p : Program) : List Event :=
  .enter (.program p) :: p.functions.flatMap Function.events

theorem bodyEvents_eq_flatMap (ns : List Node) : bodyEvents ns = ns.flatMap Node.events := by
  induction ns with
  | nil => rfl
  | cons n ns ih => simp [bodyEvents, ih]

end TvmAssembly
