import Mathlib.Data.Nat.Notation
import Mathlib.Tactic.Lemma
import TvmAssembly.Walk.Visitor

/-!
# Walks as passes over events

A walk goes into containers and comes out of them; the list of a tree's events is flat. A visitor
may as well be told the events one after the other, from left to right: where it turns away from a
container, as many events are passed over as lie strictly inside. Either way it ends in the same
state (`Visitor.Reads`), whatever it remembers and however it answers. So what it is told of is the
list of all events, less the insides of the containers it turned away from (`Prunes`), and in this
trace each block that is entered is left once, in nested order (`Nested`).
-/

namespace TvmAssembly

/-- What a walk meets strictly inside a container. The end of a block is not inside of it. -/
def Container.inside : Container → List Event
  | .program p => p.functions.flatMap Function.events
  | .function f => f.block.events
  | .block b => bodyEvents b.body
  | .sealed s => s.block.events
  | .data d => childEvents d.child
  | .conditional c => c.trueArm.events ++ childEvents c.falseArm
  | .repeatLoop l => l.body.events
  | .whileLoop l => l.condition.events ++ l.body.events

/-- All that can be walked through. -/
inductive Tree where
  | node (n : Node)
  | function (f : Function)
  | program (p : Program)

def Tree.events : Tree → List Event
  | .node n => n.events
  | .function f => f.events
  | .program p => p.events

namespace Visitor

variable {σ : Type} {v : Visitor σ}

def tree (v : Visitor σ) : Tree → σ → σ
  | .node n => v.node n
  | .function f => v.function f
  | .program p => v.program p

/-! ## Induction along a walk -/

/-- A relation of events to what a visitor makes of them that holds of every leaf and is kept when
walks are put together. A block is more than what it holds: it is also left. -/
structure Composes (v : Visitor σ) (R : List Event → (σ → σ) → Prop) : Prop where
  nil : R [] id
  append {as bs : List Event} {f g : σ → σ} (ha : R as f) (hb : R bs g) : R (as ++ bs) (g ∘ f)
  leaf (l : Leaf) : R [.leaf l] (v.leaf l)
  enter {c : Container} {walk : σ → σ} (hc : ∀ b, c ≠ .block b) (h : R c.inside walk) :
    R (.enter c :: c.inside) (v.within c walk)
  block {b : Block} {walk : σ → σ} (h : R (bodyEvents b.body) walk) :
    R (.enter (.block b) :: (bodyEvents b.body ++ [.leave b]))
      (v.leave b ∘ v.within (.block b) walk)

namespace Composes

variable {R : List Event → (σ → σ) → Prop}

mutual

theorem of_node (h : v.Composes R) : (n : Node) → R n.events (v.node n)
  | .leaf l => h.leaf l
  | .sealed b s => h.enter (c := .sealed ⟨b, s⟩) nofun (of_block h b)
  | .data k t c => h.enter (c := .data ⟨k, t, c⟩) nofun (of_child h c)
  | .block b => of_block h b
  | .conditional k t f =>
    h.enter (c := .conditional ⟨k, t, f⟩) nofun (h.append (of_block h t) (of_child h f))
  | .repeatLoop k b => h.enter (c := .repeatLoop ⟨k, b⟩) nofun (of_block h b)
  | .whileLoop c b p =>
    h.enter (c := .whileLoop ⟨c, b, p⟩) nofun (h.append (of_block h c) (of_block h b))
  termination_by structural n => n

theorem of_block (h : v.Composes R) : (b : Block) → R b.events (v.block b)
  | ⟨f, ns⟩ => h.block (b := ⟨f, ns⟩) (of_body h ns)
  termination_by structural b => b

theorem of_child (h : v.Composes R) : (c : Option Block) → R (childEvents c) (v.child c)
  | none => h.nil
  | some b => of_block h b
  termination_by structural c => c

theorem of_body (h : v.Composes R) : (ns : List Node) → R (bodyEvents ns) (v.body ns)
  | [] => h.nil
  | n :: ns => h.append (of_node h n) (of_body h ns)
  termination_by structural ns => ns

end

lemma of_function (h : v.Composes R) (f : Function) : R f.events (v.function f) :=
  h.enter (c := .function f) nofun (h.of_block f.block)

lemma of_functions (h : v.Composes R) (fs : List Function) :
    R (fs.flatMap Function.events) fun s => fs.foldl (fun s f => v.function f s) s := by
  induction fs with
  | nil => exact h.nil
  | cons f fs ih =>
    rw [List.flatMap_cons]
    exact h.append (h.of_function f) ih

/-- What holds of leaves and is kept when walks are put together holds of the walk through any
tree. -/
lemma of_tree (h : v.Composes R) (t : Tree) : R t.events (v.tree t) := by
  cases t with
  | node n => exact h.of_node n
  | function f => exact h.of_function f
  | program p => exact h.enter (c := .program p) nofun (h.of_functions p.functions)

end Composes

/-! ## Events read one by one -/

/-- Where a visitor stands that reads a list of events: its state, and how many of the events to
come it passes over. -/
structure Cursor (σ : Type) where
  state : σ
  skipping : ℕ

/-- How many events after this one lie inside a container that the visitor turns away from. -/
def skipsAfter (v : Visitor σ) (s : σ) : Event → ℕ
  | .enter c => if (v.enter c s).2 then 0 else c.inside.length
  | .leaf _ | .leave _ => 0

/-- Passes over an event, or is told of it. -/
def read (v : Visitor σ) : Cursor σ → Event → Cursor σ
  | ⟨s, skipping + 1⟩, _ => ⟨s, skipping⟩
  | ⟨s, 0⟩, e => ⟨v.step s e, v.skipsAfter s e⟩

/-- From any state, the visitor that reads the events ends where the walk ends, with nothing left to
pass over. -/
def Reads (v : Visitor σ) (es : List Event) (walk : σ → σ) : Prop :=
  ∀ s, es.foldl v.read ⟨s, 0⟩ = ⟨walk s, 0⟩

lemma foldl_read_skipping (es : List Event) (s : σ) (rest : ℕ) :
    es.foldl v.read ⟨s, es.length + rest⟩ = ⟨s, rest⟩ := by
  induction es with
  | nil => rw [List.foldl_nil, List.length_nil, Nat.zero_add]
  | cons e es ih =>
    rw [List.foldl_cons, List.length_cons, Nat.add_right_comm]
    exact ih

lemma Reads.within {c : Container} {walk : σ → σ} (h : v.Reads c.inside walk) :
    v.Reads (.enter c :: c.inside) (v.within c walk) := by
  intro s
  rw [List.foldl_cons, Visitor.within]
  by_cases hin : (v.enter c s).2 = true
  · rw [if_pos hin, ← h]
    simp only [read, step, skipsAfter, if_pos hin]
  · -- As many events are passed over as are still to be read of this list.
    rw [if_neg hin]
    simp only [read, step, skipsAfter, if_neg hin]
    exact foldl_read_skipping c.inside (v.enter c s).1 0

lemma Reads.append {as bs : List Event} {f g : σ → σ} (ha : v.Reads as f) (hb : v.Reads bs g) :
    v.Reads (as ++ bs) (g ∘ f) := by
  intro s
  rw [List.foldl_append, ha s, hb (f s), Function.comp_apply]

lemma composes_reads (v : Visitor σ) : v.Composes v.Reads where
  nil _ := rfl
  append := Reads.append
  leaf _ _ := rfl
  enter _ := Reads.within
  block {b} {walk} h := by
    have hin : v.Reads (.enter (.block b) :: bodyEvents b.body) (v.within (.block b) walk) :=
      Reads.within (c := .block b) h
    have hleave : v.Reads [.leave b] (v.leave b) := fun _ => rfl
    exact hin.append hleave

end Visitor

/-! ## Traces -/

/-- Each block that is entered is left once, and what is entered in between is left before. -/
inductive Nested : List Event → Prop
  | nil : Nested []
  | leaf (l : Leaf) {es : List Event} (h : Nested es) : Nested (.leaf l :: es)
  | enter {c : Container} (hc : ∀ b, c ≠ .block b) {es : List Event} (h : Nested es) :
      Nested (.enter c :: es)
  | block (b : Block) {inner es : List Event} (hi : Nested inner) (h : Nested es) :
      Nested (.enter (.block b) :: (inner ++ .leave b :: es))

lemma Nested.append {as bs : List Event} (ha : Nested as) (hb : Nested bs) :
    Nested (as ++ bs) := by
  induction ha with
  | nil => exact hb
  | leaf l _ ih => exact .leaf l ih
  | enter hc _ ih => exact .enter hc ih
  | block b hi _ _ ih =>
    rw [List.cons_append, List.append_assoc, List.cons_append]
    exact .block b hi ih

/-- From the events on the left, a trace with the answers: where the answer is no, all that lies
strictly inside the container is left out, and nothing else is. -/
inductive Prunes : List Event → List (Event × Bool) → Prop
  | nil : Prunes [] []
  | told (e : Event) {es : List Event} {trace : List (Event × Bool)} (h : Prunes es trace) :
      Prunes (e :: es) ((e, true) :: trace)
  | turnedAway (c : Container) {es : List Event} {trace : List (Event × Bool)}
      (h : Prunes es trace) : Prunes (.enter c :: (c.inside ++ es)) ((.enter c, false) :: trace)

lemma Prunes.append {as bs : List Event} {us ws : List (Event × Bool)} (ha : Prunes as us)
    (hb : Prunes bs ws) : Prunes (as ++ bs) (us ++ ws) := by
  induction ha with
  | nil => exact hb
  | told e _ ih => exact .told e ih
  | turnedAway c _ ih =>
    rw [List.cons_append, List.append_assoc, List.cons_append]
    exact .turnedAway c ih

namespace Visitor

variable {σ : Type}

/-- Answers as `v` does, and keeps a list of what it is told, each with its answer. -/
def tracing (v : Visitor σ) : Visitor (σ × List (Event × Bool)) where
  leaf l s := (v.leaf l s.1, s.2 ++ [(.leaf l, true)])
  enter c s := (((v.enter c s.1).1, s.2 ++ [(.enter c, (v.enter c s.1).2)]), (v.enter c s.1).2)
  leave b s := (v.leave b s.1, s.2 ++ [(.leave b, true)])

/-- What a visitor is told of on its walk through a tree, each event with its answer. -/
def trace (v : Visitor σ) (t : Tree) (s : σ) : List (Event × Bool) :=
  (v.tracing.tree t (s, [])).2

variable {v : Visitor σ}

lemma read_tracing (s : σ) (trace : List (Event × Bool)) (skipping : ℕ) (e : Event) :
    ∃ trace', v.tracing.read ⟨(s, trace), skipping⟩ e =
      ⟨((v.read ⟨s, skipping⟩ e).state, trace'), (v.read ⟨s, skipping⟩ e).skipping⟩ := by
  cases skipping with
  | zero => cases e <;> exact ⟨_, rfl⟩
  | succ skipping => exact ⟨trace, rfl⟩

/-- The list that is kept along has no bearing on the walk. -/
lemma foldl_read_tracing (es : List Event) (s : σ) (trace : List (Event × Bool)) (skipping : ℕ) :
    ∃ trace', es.foldl v.tracing.read ⟨(s, trace), skipping⟩ =
      ⟨((es.foldl v.read ⟨s, skipping⟩).state, trace'),
        (es.foldl v.read ⟨s, skipping⟩).skipping⟩ := by
  induction es generalizing s trace skipping with
  | nil => exact ⟨trace, rfl⟩
  | cons e es ih =>
    obtain ⟨trace', hread⟩ := read_tracing (v := v) s trace skipping e
    rw [List.foldl_cons, List.foldl_cons, hread]
    exact ih _ trace' _

lemma fst_tree_tracing (t : Tree) (s : σ) (trace : List (Event × Bool)) :
    (v.tracing.tree t (s, trace)).1 = v.tree t s := by
  have hv := v.composes_reads.of_tree t s
  have htracing := v.tracing.composes_reads.of_tree t (s, trace)
  -- No induction along the two walks is needed: both are passes, and these agree but for the list.
  obtain ⟨trace', hfold⟩ := foldl_read_tracing (v := v) t.events s trace 0
  rw [hv, htracing] at hfold
  exact congrArg (fun c => c.state.1) hfold

/-- From any state, the walk adds a trace to the list that is nested, and pruned from the events. -/
def Traces (es : List Event)
    (walk : σ × List (Event × Bool) → σ × List (Event × Bool)) : Prop :=
  ∀ s, ∃ trace, (walk s).2 = s.2 ++ trace ∧ Nested (trace.map Prod.fst) ∧ Prunes es trace

lemma Traces.append {as bs : List Event}
    {f g : σ × List (Event × Bool) → σ × List (Event × Bool)} (ha : Traces as f)
    (hb : Traces bs g) : Traces (as ++ bs) (g ∘ f) := by
  intro s
  obtain ⟨us, hf, husNested, hus⟩ := ha s
  obtain ⟨ws, hg, hwsNested, hws⟩ := hb (f s)
  refine ⟨us ++ ws, ?_, ?_, hus.append hws⟩
  · rw [Function.comp_apply, hg, hf, List.append_assoc]
  · rw [List.map_append]
    exact husNested.append hwsNested

/-- What is told of a container: that it is entered, and then a trace of its inside or nothing. What
is told behind it is pruned apart from that. -/
lemma exists_trace_within {c : Container}
    {walk : σ × List (Event × Bool) → σ × List (Event × Bool)} (h : Traces c.inside walk)
    (s : σ × List (Event × Bool)) :
    ∃ answer inner, (v.tracing.within c walk s).2 = s.2 ++ (.enter c, answer) :: inner ∧
      Nested (inner.map Prod.fst) ∧
      ∀ es trace, Prunes es trace →
        Prunes (.enter c :: (c.inside ++ es)) ((.enter c, answer) :: (inner ++ trace)) := by
  by_cases hin : (v.enter c s.1).2 = true
  · obtain ⟨inner, hwalk, hnested, hprunes⟩ := h (v.tracing.enter c s).1
    refine ⟨true, inner, ?_, hnested, ?_⟩
    · rw [Visitor.within, if_pos (show (v.tracing.enter c s).2 = true from hin), hwalk]
      simp [tracing, hin]
    · intro es trace hes
      exact .told _ (hprunes.append hes)
  · refine ⟨false, [], ?_, .nil, ?_⟩
    · rw [Visitor.within, if_neg (show ¬(v.tracing.enter c s).2 = true from hin)]
      simp [tracing, hin]
    · intro es trace hes
      exact .turnedAway c hes

lemma composes_traces (v : Visitor σ) : v.tracing.Composes Traces where
  nil s := ⟨[], (List.append_nil s.2).symm, .nil, .nil⟩
  append := Traces.append
  leaf l _ := ⟨[(.leaf l, true)], rfl, .leaf l .nil, .told _ .nil⟩
  enter hc h s := by
    obtain ⟨answer, inner, hwalk, hnested, hprunes⟩ := exists_trace_within (v := v) h s
    have hall := hprunes [] [] .nil
    rw [List.append_nil, List.append_nil] at hall
    exact ⟨_, hwalk, .enter hc hnested, hall⟩
  block {b} walk h s := by
    obtain ⟨answer, inner, hwalk, hnested, hprunes⟩ :=
      exists_trace_within (v := v) (c := .block b) h s
    refine ⟨(.enter (.block b), answer) :: (inner ++ [(.leave b, true)]), ?_, ?_, ?_⟩
    · have hleave : (v.tracing.leave b (v.tracing.within (.block b) walk s)).2 =
          (v.tracing.within (.block b) walk s).2 ++ [(.leave b, true)] := rfl
      rw [Function.comp_apply, hleave, hwalk, List.append_assoc, List.cons_append]
    · rw [List.map_cons, List.map_append]
      exact .block b hnested .nil
    · exact hprunes _ _ (.told _ .nil)

lemma traces_tree (t : Tree) (s : σ) :
    Nested ((v.trace t s).map Prod.fst) ∧ Prunes t.events (v.trace t s) := by
  obtain ⟨trace, hwalk, hnested, hprunes⟩ := v.composes_traces.of_tree t (s, [])
  have htrace : v.trace t s = trace := hwalk
  rw [htrace]
  exact ⟨hnested, hprunes⟩

/-- A walk is a pass over the events of the tree from left to right, for every visitor: in the state
where the walk ends the pass ends too, which passes over all that lies strictly inside the
containers that the visitor turns away from, and over nothing else. So on the walk, which is the
same when a trace is kept, each block is entered and left in nested order, and what is missing from
all events is just the inside of each container that was answered with no. -/
theorem walk_eq_pass_over_events (v : Visitor σ) (t : Tree) (s : σ) :
    t.events.foldl v.read ⟨s, 0⟩ = ⟨v.tree t s, 0⟩ ∧
    (v.tracing.tree t (s, [])).1 = v.tree t s ∧
    Nested ((v.trace t s).map Prod.fst) ∧
    Prunes t.events (v.trace t s) :=
  ⟨v.composes_reads.of_tree t s, fst_tree_tracing t s [], traces_tree t s⟩

end Visitor

end TvmAssembly
