import TvmAssembly.Walk.Event

/-!
# Visitors

A visitor carries a state through a walk. Entering a container it decides whether the walk goes on
inside; a block that is not gone into is left all the same.
-/

namespace TvmAssembly

/-- By default a visitor goes everywhere and does nothing. -/
structure Visitor (σ : Type) where
  leaf : Leaf → σ → σ := fun _ s => s
  enter : Container → σ → σ × Bool := fun _ s => (s, true)
  leave : Block → σ → σ := fun _ s => s

namespace Visitor

variable {σ : Type} (v : Visitor σ)

/-- Enters a container, and walks through it if the visitor wants to. -/
def within (c : Container) (walk : σ → σ) (s : σ) : σ :=
  if (v.enter c s).2 then walk (v.enter c s).1 else (v.enter c s).1

mutual

def node : Node → σ → σ
  | .leaf l => v.leaf l
  | .sealed b t => v.within (.sealed ⟨b, t⟩) (block b)
  | .data k t c => v.within (.data ⟨k, t, c⟩) (child c)
  | .block b => block b
  | .conditional k t f => v.within (.conditional ⟨k, t, f⟩) (child f ∘ block t)
  | .repeatLoop k b => v.within (.repeatLoop ⟨k, b⟩) (block b)
  | .whileLoop c b p => v.within (.whileLoop ⟨c, b, p⟩) (block b ∘ block c)
  termination_by structural n => n

def block : Block → σ → σ
  | ⟨f, ns⟩ => v.leave ⟨f, ns⟩ ∘ v.within (.block ⟨f, ns⟩) (body ns)
  termination_by structural b => b

def child : Option Block → σ → σ
  | none => id
  | some b => block b
  termination_by structural c => c

def body : List Node → σ → σ
  | [] => id
  | n :: ns => body ns ∘ node n
  termination_by structural ns => ns

end

def function (f : Function) : σ → σ :=
  v.within (.function f) (v.block f.block)

def program (p : Program) : σ → σ :=
  v.within (.program p) fun s => p.functions.foldl (fun s f => v.function f s) s

/-- What one event does to the state, whatever the visitor answers. -/
def step (s : σ) : Event → σ
  | .leaf l => v.leaf l s
  | .enter c => (v.enter c s).1
  | .leave b => v.leave b s

/-- A visitor that never turns away from a container. -/
def GoesEverywhere : Prop := ∀ c s, (v.enter c s).2 = true

variable {v}

theorem within_of_goesEverywhere (hv : v.GoesEverywhere) (c : Container) (walk : σ → σ) (s : σ) :
    v.within c walk s = walk (v.step s (.enter c)) := by
  rw [within, if_pos (hv c s), step]

mutual

/-- Without a container left out, a walk is one pass over its events. -/
theorem node_eq_foldl (hv : v.GoesEverywhere) :
    (n : Node) → (s : σ) → v.node n s = n.events.foldl v.step s
  | .leaf _, _ => rfl
  | .sealed b _, s => by
    rw [node, within_of_goesEverywhere hv, block_eq_foldl hv b, Node.events, List.foldl_cons]
  | .data _ _ c, s => by
    rw [node, within_of_goesEverywhere hv, child_eq_foldl hv c, Node.events, List.foldl_cons]
  | .block b, s => block_eq_foldl hv b s
  | .conditional _ t f, s => by
    rw [node, within_of_goesEverywhere hv, Function.comp_apply, block_eq_foldl hv t,
      child_eq_foldl hv f, Node.events, List.foldl_cons, List.foldl_append]
  | .repeatLoop _ b, s => by
    rw [node, within_of_goesEverywhere hv, block_eq_foldl hv b, Node.events, List.foldl_cons]
  | .whileLoop c b _, s => by
    rw [node, within_of_goesEverywhere hv, Function.comp_apply, block_eq_foldl hv c,
      block_eq_foldl hv b, Node.events, List.foldl_cons, List.foldl_append]
  termination_by structural n => n

theorem block_eq_foldl (hv : v.GoesEverywhere) :
    (b : Block) → (s : σ) → v.block b s = b.events.foldl v.step s
  | ⟨f, ns⟩, s => by
    rw [block, Function.comp_apply, within_of_goesEverywhere hv, body_eq_foldl hv ns, Block.events,
      List.foldl_cons, List.foldl_append]
    rfl
  termination_by structural b => b

theorem child_eq_foldl (hv : v.GoesEverywhere) :
    (c : Option Block) → (s : σ) → v.child c s = (childEvents c).foldl v.step s
  | none, _ => rfl
  | some b, s => block_eq_foldl hv b s
  termination_by structural c => c

theorem body_eq_foldl (hv : v.GoesEverywhere) :
    (ns : List Node) → (s : σ) → v.body ns s = (bodyEvents ns).foldl v.step s
  | [], _ => rfl
  | n :: ns, s => by
    rw [body, Function.comp_apply, node_eq_foldl hv n, body_eq_foldl hv ns, bodyEvents,
      List.foldl_append]
  termination_by structural ns => ns

end

theorem function_eq_foldl (hv : v.GoesEverywhere) (f : Function) (s : σ) :
    v.function f s = f.events.foldl v.step s := by
  rw [function, within_of_goesEverywhere hv, block_eq_foldl hv, Function.events, List.foldl_cons]

end Visitor

end TvmAssembly
