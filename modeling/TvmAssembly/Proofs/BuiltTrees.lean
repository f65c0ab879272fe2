import Mathlib.Logic.Function.Iterate
import Mathlib.Tactic.Lemma
import TvmAssembly.Build.Container
import TvmAssembly.Build.Leaf
import TvmAssembly.Build.Stack
import TvmAssembly.Walk.Event

/-!
# Trees that the factories build

`Block.Built` and its companions hold of exactly the trees that the factories and any number of
inversions can give. What the factories check is an invariant of such a tree at every depth:
`Block.Built.events` says that each leaf is one that a factory gives, that each conditional has the
arms of its kind, in frames that take its own branch or the opposite one, and that each literal has
something to push. `Block.Built.sound` says it of the containers alone.
-/

namespace TvmAssembly

/-- A leaf that some factory gives. -/
inductive Leaf.Built : Leaf → Prop
  | location (l : Location) : Built (.location l)
  | push {slot : UInt32} {op : StackOp} (h : Build.push slot = .ok op) : Built (.stack op)
  | pop {slot : UInt32} {op : StackOp} (h : Build.pop slot = .ok op) : Built (.stack op)
  | drop {count : UInt32} {op : StackOp} (h : Build.drop count = .ok op) : Built (.stack op)
  | swapTop {slot : UInt32} {op : StackOp} (h : Build.swapTop slot = .ok op) : Built (.stack op)
  | swap {first second : UInt32} {op : StackOp} (h : Build.swap first second = .ok op) :
      Built (.stack op)
  | pushBlock {count slot : UInt32} {op : StackOp}
      (h : (Build.pushBlock count slot).outcome = .ok op) : Built (.stack op)
  | push2 {first second : UInt32} {op : StackOp} (h : Build.push2 first second = .ok op) :
      Built (.stack op)
  | push3 {first second third : UInt32} {op : StackOp}
      (h : Build.push3 first second third = .ok op) : Built (.stack op)
  | dropBelow {dropped kept : UInt32} {op : StackOp}
      (h : (Build.dropBelow dropped kept).outcome = .ok op) : Built (.stack op)
  | reverse {count offset : UInt32} {op : StackOp} (h : Build.reverse count offset = .ok op) :
      Built (.stack op)
  | dup2 : Built (.stack .dup2)
  | over2 : Built (.stack .over2)
  | rot : Built (.stack .rot)
  | rotBack : Built (.stack .rotBack)
  | getGlobal {index : UInt32} {op : GlobalOp} (h : Build.getGlobal index = .ok op) :
      Built (.global op)
  | setGlobal {index : UInt32} {op : GlobalOp} (h : Build.setGlobal index = .ok op) :
      Built (.global op)
  | exchangeGlobal {index : UInt32} {op : GlobalOp} (h : Build.exchangeGlobal index = .ok op) :
      Built (.global op)
  | instruction {line : String} {i : Instruction} (h : (Build.instruction line).outcome = .ok i) :
      Built (.instruction i)
  | throwing {line : String} {e : Exit} (h : (Build.throwing line).outcome = .ok e) :
      Built (.exit e)
  | ret : Built (.exit Build.ret)
  | retIf : Built (.exit Build.retIf)
  | retIfNot : Built (.exit Build.retIfNot)
  | verbatim {lines : List String} {signature : Signature} {v : Verbatim}
      (h : Build.verbatim lines signature = .ok v) : Built (.verbatim v)

mutual

inductive Block.Built : Block → Prop
  | block (frame : Frame) {body : List Node} (h : ∀ n ∈ body, Node.Built n) :
      Block.Built (Build.block frame body)

inductive Node.Built : Node → Prop
  | leaf {l : Leaf} (h : l.Built) : Node.Built (.leaf l)
  | sealed {b : Block} (h : Block.Built b) (signature : Signature) :
      Node.Built (Build.sealed b signature).node
  | data {d : DataPush} (h : DataPush.Built d) : Node.Built d.node
  | block {b : Block} (h : Block.Built b) : Node.Built (.block b)
  | conditional {c : Conditional} (h : Conditional.Built c) : Node.Built c.node
  | counted {b : Block} (h : Block.Built b) : Node.Built (Build.counted b).node
  | untilTrue {b : Block} (h : Block.Built b) : Node.Built (Build.untilTrue b).node
  | whileLoop {condition body : Block} (hc : Block.Built condition) (hb : Block.Built body)
      (canBreak : Bool) : Node.Built (Build.whileLoop condition body canBreak).node

inductive DataPush.Built : DataPush → Prop
  | dataPush {kind : DataKind} {text : String} {child : Option Block} {d : DataPush}
      (hc : ∀ b, child = some b → Block.Built b) (h : Build.dataPush kind text child = .ok d) :
      DataPush.Built d
  | cell {text : String} {child : Option Block} {d : DataPush}
      (hc : ∀ b, child = some b → Block.Built b) (h : Build.cell text child = .ok d) :
      DataPush.Built d
  | reference {text : String} {d : DataPush} (h : Build.reference text = .ok d) : DataPush.Built d

inductive Conditional.Built : Conditional → Prop
  | conditional {kind : ConditionalKind} {trueArm : Block} {falseArm : Option Block}
      {c : Conditional} (ht : Block.Built trueArm) (hf : ∀ b, falseArm = some b → Block.Built b)
      (h : Build.conditional kind trueArm falseArm = .ok c) : Conditional.Built c
  | invert {c : Conditional} (h : Conditional.Built c) : Conditional.Built c.invert

end

inductive Function.Built : Function → Prop
  | function {name : String} {kind : FunctionKind} {effect : StackEffect} {block : Block}
      {f : Function} (hb : block.Built) (h : Build.function name kind effect block = .ok f) :
      Built f

/-- Programs are put together without a check. -/
def Program.Built (p : Program) : Prop := ∀ f ∈ p.functions, f.Built

lemma Function.Built.built_block {f : Function} (h : f.Built) : f.block.Built := by
  cases h with
  | function hb h =>
    obtain ⟨rfl, -⟩ := Build.function_eq_ok_iff.mp h
    exact hb

lemma Function.Built.exists_not_blank {f : Function} (h : f.Built) :
    ∃ c ∈ f.name.toList, Text.isBlank c = false := by
  cases h with
  | function hb h =>
    obtain ⟨rfl, hname⟩ := Build.function_eq_ok_iff.mp h
    exact hname

/-- A conditional has the arms of its kind. An arm's frame takes no branch, or that of the kind, or
the opposite one if the conditional was inverted. -/
structure Conditional.Sound (c : Conditional) : Prop where
  isSome_falseArm : c.falseArm.isSome = c.kind.isTwoArmed
  encoded : ∀ arm ∈ c.arms, ∀ encoded, arm.frame.branch? = some encoded →
    encoded = c.kind ∨ encoded = c.kind.inverse

/-- A literal has something to push, and code only where there is a place for it. -/
structure DataPush.Sound (d : DataPush) : Prop where
  child_eq_none : d.kind = .inlineSlice → d.child = none
  child_ne_none : d.text = "" → d.child ≠ none

def Event.Sound : Event → Prop
  | .enter (.conditional c) => c.Sound
  | .enter (.data d) => d.Sound
  | _ => True

/-- What the factories say of an event: a leaf is one of theirs, and a container passed their
checks. -/
def Event.Built : Event → Prop
  | .leaf l => l.Built
  | e => e.Sound

lemma Event.Built.sound {e : Event} (h : e.Built) : e.Sound := by
  cases e with
  | leaf l => trivial
  | _ => exact h

lemma Conditional.Sound.invert {c : Conditional} (h : c.Sound) : c.invert.Sound where
  isSome_falseArm := by
    rw [isSome_falseArm_invert, kind_invert, ConditionalKind.isTwoArmed_inverse]
    exact h.isSome_falseArm
  encoded arm harm encoded he := by
    rw [kind_invert, ConditionalKind.inverse_inverse]
    exact (h.encoded arm (mem_arms_invert.1 harm) encoded he).symm

lemma Conditional.Sound.iterate_invert {c : Conditional} (h : c.Sound) (k : ℕ) :
    (Conditional.invert^[k] c).Sound := by
  induction k with
  | zero => exact h
  | succ k ih =>
    rw [Function.iterate_succ_apply']
    exact ih.invert

lemma Conditional.Sound.falseArm_eq_none {c : Conditional} (h : c.Sound)
    (hone : c.kind.isTwoArmed = false) : c.falseArm = none := by
  rw [← Option.not_isSome_iff_eq_none, h.isSome_falseArm, hone]
  exact Bool.false_ne_true

/-- Both arms of a two-armed conditional are in frames that take no branch. -/
lemma Conditional.Sound.branch?_eq_none {c : Conditional} (h : c.Sound)
    (htwo : c.kind.isTwoArmed = true) : ∀ arm ∈ c.arms, arm.frame.branch? = none := by
  intro arm harm
  apply Frame.branch?_eq_none_of_isTwoArmed
  intro encoded he
  rcases h.encoded arm harm encoded he with rfl | rfl
  · exact htwo
  · rw [ConditionalKind.isTwoArmed_inverse]
    exact htwo

/-- A conditional's events are its own and those of its arms. -/
lemma Conditional.forall_mem_events {P : Event → Prop} {c : Conditional} :
    (∀ e ∈ c.node.events, P e) ↔
      P (.enter (.conditional c)) ∧ ∀ arm ∈ c.arms, ∀ e ∈ arm.events, P e := by
  obtain ⟨kind, trueArm, falseArm⟩ := c
  cases falseArm <;> simp [node, arms, Node.events, childEvents, or_imp, forall_and]

/-- Inversion keeps what holds of the events of the arms. -/
lemma Conditional.forall_mem_events_invert {P : Event → Prop} {c : Conditional}
    (hc : P (.enter (.conditional c.invert))) (h : ∀ e ∈ c.node.events, P e) :
    ∀ e ∈ c.invert.node.events, P e := by
  have harms := (forall_mem_events.1 h).2
  exact forall_mem_events.2 ⟨hc, fun arm harm => harms arm (mem_arms_invert.1 harm)⟩

lemma DataPush.forall_mem_events {P : Event → Prop} {d : DataPush} :
    (∀ e ∈ d.node.events, P e) ↔
      P (.enter (.data d)) ∧ ∀ b, d.child = some b → ∀ e ∈ b.events, P e := by
  obtain ⟨kind, text, child⟩ := d
  cases child <;> simp [node, Node.events, childEvents]

lemma Block.forall_mem_events {P : Event → Prop} {frame : Frame} {body : List Node} :
    (∀ e ∈ (Block.mk frame body).events, P e) ↔
      P (.enter (.block ⟨frame, body⟩)) ∧ (∀ n ∈ body, ∀ e ∈ n.events, P e) ∧
        P (.leave ⟨frame, body⟩) := by
  simp only [Block.events, bodyEvents_eq_flatMap, List.mem_cons, List.mem_append,
    List.mem_flatMap, List.not_mem_nil, or_false, or_imp, forall_and, forall_eq]
  grind

/-- All literals pass the same check, which is what makes them sound. -/
lemma DataPush.built_events_of_literal {kind : DataKind} {text : String} {child : Option Block}
    {d : DataPush} (h : Build.literal kind text child = .ok d)
    (hc : ∀ b, child = some b → ∀ e ∈ b.events, e.Built) : ∀ e ∈ d.node.events, e.Built := by
  obtain ⟨rfl, hslice, hempty⟩ := Build.literal_eq_ok_iff.1 h
  have hd : DataPush.Sound ⟨kind, text, child⟩ := ⟨hslice, hempty⟩
  exact forall_mem_events.2 ⟨hd, hc⟩

/-- A conditional as the factory gives it has no frame of the opposite branch yet. -/
lemma Conditional.Sound.of_conditional {kind : ConditionalKind} {trueArm : Block}
    {falseArm : Option Block} {c : Conditional}
    (h : Build.conditional kind trueArm falseArm = .ok c) : c.Sound := by
  obtain ⟨rfl, harms, hframes⟩ := Build.conditional_eq_ok_iff.1 h
  exact ⟨harms, fun arm harm encoded he => .inl (hframes arm harm encoded he)⟩

lemma Conditional.built_events_of_conditional {kind : ConditionalKind} {trueArm : Block}
    {falseArm : Option Block} {c : Conditional}
    (h : Build.conditional kind trueArm falseArm = .ok c) (ht : ∀ e ∈ trueArm.events, e.Built)
    (hf : ∀ b, falseArm = some b → ∀ e ∈ b.events, e.Built) : ∀ e ∈ c.node.events, e.Built := by
  have hc : c.Sound := .of_conditional h
  obtain ⟨rfl, -⟩ := Build.conditional_eq_ok_iff.1 h
  refine forall_mem_events.2 ⟨hc, fun arm harm => ?_⟩
  rcases List.mem_cons.1 harm with rfl | harm
  · exact ht
  · exact hf arm (Option.mem_toList.1 harm)

mutual

/-- What the factories say holds of everything in a built block. -/
theorem Block.Built.events {b : Block} (h : b.Built) : ∀ e ∈ b.events, e.Built :=
  match b, h with
  | _, .block _ h => Block.forall_mem_events.2 ⟨trivial, fun n hn => (h n hn).events, trivial⟩

theorem Node.Built.events {n : Node} (h : n.Built) : ∀ e ∈ n.events, e.Built :=
  match n, h with
  | _, .leaf h => List.forall_mem_singleton.2 h
  | _, .sealed h _ => List.forall_mem_cons.2 ⟨trivial, h.events⟩
  | _, .data h => h.events
  | _, .block h => h.events
  | _, .conditional h => h.events
  | _, .counted h => List.forall_mem_cons.2 ⟨trivial, h.events⟩
  | _, .untilTrue h => List.forall_mem_cons.2 ⟨trivial, h.events⟩
  | _, .whileLoop hc hb _ =>
    List.forall_mem_cons.2 ⟨trivial, List.forall_mem_append.2 ⟨hc.events, hb.events⟩⟩

theorem DataPush.Built.events {d : DataPush} (h : d.Built) : ∀ e ∈ d.node.events, e.Built :=
  match d, h with
  | _, .dataPush hc h =>
    DataPush.built_events_of_literal (Build.dataPush_eq_ok_iff.1 h).2 fun b hb => (hc b hb).events
  | _, .cell hc h => DataPush.built_events_of_literal h fun b hb => (hc b hb).events
  | _, .reference h =>
    DataPush.built_events_of_literal (Build.dataPush_eq_ok_iff.1 h).2 fun _ hb => nomatch hb

theorem Conditional.Built.events {c : Conditional} (h : c.Built) :
    ∀ e ∈ c.node.events, e.Built :=
  match c, h with
  | _, .conditional ht hf h =>
    Conditional.built_events_of_conditional h ht.events fun b hb => (hf b hb).events
  | _, .invert h =>
    have he := h.events
    have hc : Conditional.Sound _ := (Conditional.forall_mem_events.1 he).1
    Conditional.forall_mem_events_invert hc.invert he

end

/-- The checks of the factories hold of everything in a built block. -/
theorem Block.Built.sound {b : Block} (h : b.Built) : ∀ e ∈ b.events, e.Sound :=
  fun e he => (h.events e he).sound

theorem Node.Built.sound {n : Node} (h : n.Built) : ∀ e ∈ n.events, e.Sound :=
  fun e he => (h.events e he).sound

theorem Conditional.Built.sound {c : Conditional} (h : c.Built) :
    ∀ e ∈ c.node.events, e.Sound :=
  fun e he => (h.events e he).sound

end TvmAssembly
