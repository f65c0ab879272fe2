import Mathlib.Algebra.Ring.Parity
import TvmAssembly.Proofs.BuiltTrees

/-!
# Trees built again

A pass takes every container of a tree apart, inside out, and builds it again from its parts. It
gives the same tree unless an inversion left an arm in the frame of the opposite branch: the factory
of conditionals refuses such an arm, and the pass then ends in that fault.
-/

namespace TvmAssembly

/-! ## The pass -/

def Build.dataOfKind (kind : DataKind) (text : String) (child : Option Block) :
    Except Fault DataPush :=
  if kind = .nestedCell then Build.cell text child else Build.dataPush kind text child

def Build.loopOfKind (kind : RepeatKind) (body : Block) : RepeatLoop :=
  match kind with
  | .counted => Build.counted body
  | .untilTrue => Build.untilTrue body

mutual

def Block.rebuild : Block → Except Fault Block
  | ⟨frame, body⟩ => do
    let body ← rebuildBody body
    return Build.block frame body
  termination_by structural b => b

/-- Each container goes to the factory that gives its kind. -/
def Node.rebuild : Node → Except Fault Node
  | .leaf l => return .leaf l
  | .sealed b signature => do
    let b ← b.rebuild
    return (Build.sealed b signature).node
  | .data kind text child => do
    let child ← rebuildChild child
    let d ← Build.dataOfKind kind text child
    return d.node
  | .block b => do
    let b ← b.rebuild
    return .block b
  | .conditional kind trueArm falseArm => do
    let trueArm ← trueArm.rebuild
    let falseArm ← rebuildChild falseArm
    let c ← Build.conditional kind trueArm falseArm
    return c.node
  | .repeatLoop kind b => do
    let b ← b.rebuild
    return (Build.loopOfKind kind b).node
  | .whileLoop condition body canBreak => do
    let condition ← condition.rebuild
    let body ← body.rebuild
    return (Build.whileLoop condition body canBreak).node
  termination_by structural n => n

def rebuildChild : Option Block → Except Fault (Option Block)
  | none => return none
  | some b => do
    let b ← b.rebuild
    return some b
  termination_by structural c => c

def rebuildBody : List Node → Except Fault (List Node)
  | [] => return []
  | n :: ns => do
    let n ← n.rebuild
    let ns ← rebuildBody ns
    return n :: ns
  termination_by structural ns => ns

end

def Function.rebuild (f : Function) : Except Fault Function := do
  let block ← f.block.rebuild
  Build.function f.name f.kind f.effect block

def rebuildFunctions : List Function → Except Fault (List Function)
  | [] => return []
  | f :: fs => do
    let f ← f.rebuild
    let fs ← rebuildFunctions fs
    return f :: fs

def Program.rebuild (p : Program) : Except Fault Program := do
  let functions ← rebuildFunctions p.functions
  return ⟨p.pragmas, functions⟩

/-! ## Faults that are due -/

/-- The fault of a conditional with an arm in the frame of a branch that it does not take. -/
def Conditional.StaleFault (c : Conditional) (fault : Fault) : Prop :=
  ∃ arm ∈ c.arms, ∃ encoded, arm.frame.branch? = some encoded ∧ encoded ≠ c.kind ∧
    fault = .contraryFrame c.kind arm.frame encoded

def Event.StaleFault : Event → Fault → Prop
  | .enter (.conditional c), fault => c.StaleFault fault
  | _, _ => False

/-- The faults of all conditionals among the events. -/
def StaleFault (es : List Event) (fault : Fault) : Prop := ∃ e ∈ es, e.StaleFault fault

/-- What building `a` again comes to: `a` if no fault is due, else one of the faults due. -/
def Rebuilds {α : Type} (due : Fault → Prop) (x : Except Fault α) (a : α) : Prop :=
  (x = .ok a ∧ ∀ fault, ¬due fault) ∨ ∃ fault, x = .error fault ∧ due fault

@[simp]
lemma staleFault_nil (fault : Fault) : StaleFault [] fault ↔ False := by simp [StaleFault]

@[simp]
lemma staleFault_cons (e : Event) (es : List Event) (fault : Fault) :
    StaleFault (e :: es) fault ↔ e.StaleFault fault ∨ StaleFault es fault := by
  simp [StaleFault]

@[simp]
lemma staleFault_append (es fs : List Event) (fault : Fault) :
    StaleFault (es ++ fs) fault ↔ StaleFault es fault ∨ StaleFault fs fault := by
  simp [StaleFault, or_and_right, exists_or]

namespace Rebuilds

variable {α β : Type} {due due' : Fault → Prop} {x : Except Fault α} {a : α}

lemma congr (h : Rebuilds due x a) (hdue : ∀ fault, due fault ↔ due' fault) :
    Rebuilds due' x a := by
  have heq : due = due' := funext fun fault => propext (hdue fault)
  rwa [← heq]

/-- A step that cannot fail has no fault. -/
lemma of_ok (h : x = .ok a) : Rebuilds (fun _ => False) x a :=
  .inl ⟨h, fun _ => id⟩

/-- The faults of a first step come before those of the next one. -/
protected lemma bind {f : α → Except Fault β} {b : β} (hx : Rebuilds due x a)
    (hf : Rebuilds due' (f a) b) : Rebuilds (fun fault => due fault ∨ due' fault) (x >>= f) b := by
  rcases hx with ⟨rfl, hnone⟩ | ⟨fault, rfl, hdue⟩
  · rcases hf with ⟨hok, hnone'⟩ | ⟨fault, herror, hdue'⟩
    · exact .inl ⟨hok, fun fault => not_or.mpr ⟨hnone fault, hnone' fault⟩⟩
    · exact .inr ⟨fault, herror, .inr hdue'⟩
  · exact .inr ⟨fault, rfl, .inl hdue⟩

protected lemma map (hx : Rebuilds due x a) (f : α → β) :
    Rebuilds due (x >>= fun a => pure (f a)) (f a) :=
  (hx.bind (of_ok (a := f a) rfl)).congr fun fault => iff_of_eq (or_false (due fault))

lemma eq_ok_iff (h : Rebuilds due x a) : x = .ok a ↔ ∀ fault, ¬due fault := by
  rcases h with ⟨hok, hnone⟩ | ⟨fault, herror, hdue⟩
  · exact iff_of_true hok hnone
  · exact iff_of_false (by simp [herror]) fun hnone => hnone fault hdue

end Rebuilds

/-! ## The factories -/

/-- The faults that are due for a sound conditional are due for its one arm. -/
lemma Conditional.Sound.eq_of_staleFault {c : Conditional} (h : c.Sound) {fault : Fault}
    (hf : c.StaleFault fault) : c.kind.isTwoArmed = false ∧ c.falseArm = none ∧
      ∃ encoded, c.trueArm.frame.branch? = some encoded ∧ encoded ≠ c.kind ∧
        fault = .contraryFrame c.kind c.trueArm.frame encoded := by
  obtain ⟨arm, harm, encoded, hbranch, hne, rfl⟩ := hf
  have hinverse : encoded = c.kind.inverse := (h.encoded arm harm encoded hbranch).resolve_left hne
  have hone : c.kind.isTwoArmed = false := by
    rw [← ConditionalKind.isTwoArmed_inverse, ← hinverse]
    exact Frame.isTwoArmed_of_branch?_eq_some hbranch
  have hnone : c.falseArm = none := h.falseArm_eq_none hone
  have harm' : arm = c.trueArm := by simpa [arms, hnone] using harm
  subst harm'
  exact ⟨hone, hnone, encoded, hbranch, hne, rfl⟩

/-- Of a sound conditional, the factory refuses nothing but the frame of the opposite branch. -/
lemma Conditional.Sound.rebuilds {c : Conditional} (h : c.Sound) :
    Rebuilds c.StaleFault (Build.conditional c.kind c.trueArm c.falseArm) c := by
  by_cases hstale : ∃ fault, c.StaleFault fault
  · obtain ⟨fault, hf⟩ := hstale
    obtain ⟨hone, hnone, encoded, hbranch, hne, hfault⟩ := h.eq_of_staleFault hf
    refine .inr ⟨fault, ?_, hf⟩
    have hframe : Build.admitFrame c.kind c.trueArm.frame = .error fault := by
      simp [Build.admitFrame, hbranch, hone, hne, hfault]
    have harms : Build.admitArms c.kind false = .ok () := by
      rw [Build.admitArms_eq_ok_iff, hone]
    rw [hnone, Build.conditional, Option.isSome_none, harms, hframe]
    rfl
  · refine .inl ⟨Build.conditional_eq_ok_iff.mpr ⟨rfl, h.isSome_falseArm, ?_⟩, not_exists.mp hstale⟩
    intro arm harm encoded hbranch
    by_contra hne
    exact hstale ⟨_, arm, harm, encoded, hbranch, hne, rfl⟩

lemma DataPush.Sound.rebuilds {d : DataPush} (h : d.Sound) :
    Rebuilds (fun _ => False) (Build.dataOfKind d.kind d.text d.child) d := by
  have hliteral : Build.literal d.kind d.text d.child = .ok d :=
    Build.literal_eq_ok_iff.mpr ⟨rfl, h.child_eq_none, h.child_ne_none⟩
  apply Rebuilds.of_ok
  rw [Build.dataOfKind]
  split
  · next hcell => rwa [hcell] at hliteral
  · next hcell => exact Build.dataPush_eq_ok_iff.mpr ⟨hcell, hliteral⟩

/-! ## The whole tree -/

mutual

/-- What the pass does to a tree is decided by its conditionals. -/
theorem Block.rebuilds : (b : Block) → (∀ e ∈ b.events, e.Sound) →
    Rebuilds (StaleFault b.events) b.rebuild b
  | ⟨frame, body⟩, h => by
    have hbody := rebuilds_body body (Block.forall_mem_events.mp h).2.1
    refine (hbody.map (Build.block frame)).congr fun fault => ?_
    simp [Block.events, Event.StaleFault]
  termination_by structural b => b

theorem Node.rebuilds : (n : Node) → (∀ e ∈ n.events, e.Sound) →
    Rebuilds (StaleFault n.events) n.rebuild n
  | .leaf l, _ => (Rebuilds.of_ok rfl).congr fun fault => by
    simp [Node.events, Event.StaleFault]
  | .sealed b signature, h => by
    have hb := Block.rebuilds b (List.forall_mem_cons.mp h).2
    refine (hb.map fun b => (Build.sealed b signature).node).congr fun fault => ?_
    simp [Node.events, Event.StaleFault]
  | .data kind text child, h => by
    have hd : DataPush.Sound ⟨kind, text, child⟩ := (List.forall_mem_cons.mp h).1
    have hchild := rebuilds_child child (List.forall_mem_cons.mp h).2
    refine (hchild.bind (hd.rebuilds.map DataPush.node)).congr fun fault => ?_
    simp [Node.events, Event.StaleFault]
  | .block b, h => (Block.rebuilds b h).map Node.block
  | .conditional kind trueArm falseArm, h => by
    have hc : Conditional.Sound ⟨kind, trueArm, falseArm⟩ := (List.forall_mem_cons.mp h).1
    obtain ⟨ht, hf⟩ := List.forall_mem_append.mp (List.forall_mem_cons.mp h).2
    have htrue := Block.rebuilds trueArm ht
    have hfalse := rebuilds_child falseArm hf
    refine (htrue.bind (hfalse.bind (hc.rebuilds.map Conditional.node))).congr fun fault => ?_
    simp only [Node.events, staleFault_cons, staleFault_append, Event.StaleFault]
    tauto
  | .repeatLoop kind b, h => by
    have hb := Block.rebuilds b (List.forall_mem_cons.mp h).2
    have hloop : (Build.loopOfKind kind b).node = .repeatLoop kind b := by cases kind <;> rfl
    have hrebuilt := hb.map fun b => (Build.loopOfKind kind b).node
    rw [hloop] at hrebuilt
    refine hrebuilt.congr fun fault => ?_
    simp [Node.events, Event.StaleFault]
  | .whileLoop condition body canBreak, h => by
    obtain ⟨hc, hb⟩ := List.forall_mem_append.mp (List.forall_mem_cons.mp h).2
    have hcondition := Block.rebuilds condition hc
    have hbody := Block.rebuilds body hb
    refine (hcondition.bind (hbody.map fun body =>
      (Build.whileLoop condition body canBreak).node)).congr fun fault => ?_
    simp [Node.events, Event.StaleFault]
  termination_by structural n => n

theorem rebuilds_child : (child : Option Block) → (∀ e ∈ childEvents child, e.Sound) →
    Rebuilds (StaleFault (childEvents child)) (rebuildChild child) child
  | none, _ => (Rebuilds.of_ok rfl).congr fun fault => by simp [childEvents]
  | some b, h => (Block.rebuilds b h).map some
  termination_by structural child => child

theorem rebuilds_body : (body : List Node) → (∀ n ∈ body, ∀ e ∈ n.events, e.Sound) →
    Rebuilds (StaleFault (bodyEvents body)) (rebuildBody body) body
  | [], _ => (Rebuilds.of_ok rfl).congr fun fault => by simp [bodyEvents]
  | n :: ns, h => by
    obtain ⟨hn, hns⟩ := List.forall_mem_cons.mp h
    have hnode := Node.rebuilds n hn
    have hrest := rebuilds_body ns hns
    refine (hnode.bind (hrest.map (n :: ·))).congr fun fault => ?_
    simp [bodyEvents]
  termination_by structural body => body

end

lemma Function.Built.rebuilds {f : Function} (h : f.Built) :
    Rebuilds (StaleFault f.events) f.rebuild f := by
  have hblock := f.block.rebuilds h.built_block.sound
  have hname : Build.function f.name f.kind f.effect f.block = .ok f :=
    Build.function_eq_ok_iff.mpr ⟨rfl, h.exists_not_blank⟩
  refine (hblock.bind (Rebuilds.of_ok hname)).congr fun fault => ?_
  simp [Function.events, Event.StaleFault]

lemma rebuilds_functions {fs : List Function} (h : ∀ f ∈ fs, f.Built) :
    Rebuilds (StaleFault (fs.flatMap Function.events)) (rebuildFunctions fs) fs := by
  induction fs with
  | nil => exact (Rebuilds.of_ok rfl).congr fun fault => by simp
  | cons f fs ih =>
    obtain ⟨hf, hfs⟩ := List.forall_mem_cons.mp h
    refine (hf.rebuilds.bind ((ih hfs).map (f :: ·))).congr fun fault => ?_
    simp

lemma Program.Built.rebuilds {p : Program} (h : p.Built) :
    Rebuilds (StaleFault p.events) p.rebuild p := by
  refine ((rebuilds_functions h).map (Program.mk p.pragmas)).congr fun fault => ?_
  simp [Program.events, Event.StaleFault]

/-! ## Inversions -/

namespace Conditional

lemma Built.sound_self {c : Conditional} (h : c.Built) : c.Sound :=
  (forall_mem_events.mp h.sound).1

lemma involutive_invert : Function.Involutive invert := invert_invert

/-- One inversion of a conditional as the factory gives it leaves a frame behind iff the frame of
its true arm takes a branch. -/
lemma exists_staleFault_invert_iff {kind : ConditionalKind} {trueArm : Block}
    {falseArm : Option Block} {c : Conditional}
    (h : Build.conditional kind trueArm falseArm = .ok c) :
    (∃ fault, c.invert.StaleFault fault) ↔ trueArm.frame.branch? ≠ none := by
  have hc := Sound.of_conditional h
  obtain ⟨rfl, -, hframes⟩ := Build.conditional_eq_ok_iff.mp h
  constructor
  · rintro ⟨fault, hf⟩
    obtain ⟨-, hnone, encoded, hbranch, -⟩ := hc.invert.eq_of_staleFault hf
    cases falseArm with
    | none =>
      rw [show trueArm.frame.branch? = some encoded from hbranch]
      exact Option.some_ne_none encoded
    | some arm => simp [invert] at hnone
  · intro hbranch
    obtain ⟨encoded, hencoded⟩ := Option.ne_none_iff_exists'.mp hbranch
    have hmem : trueArm ∈ arms ⟨kind, trueArm, falseArm⟩ := by simp [arms]
    have hkind : encoded = kind := hframes trueArm hmem encoded hencoded
    have hone : kind.isTwoArmed = false := hkind ▸ Frame.isTwoArmed_of_branch?_eq_some hencoded
    refine ⟨_, trueArm, mem_arms_invert.mpr hmem, encoded, hencoded, ?_, rfl⟩
    rw [kind_invert, hkind]
    exact (ConditionalKind.inverse_ne_self hone).symm

/-- Any number of inversions of a conditional as the factory gives it. -/
lemma rebuild_iterate_invert_iff {kind : ConditionalKind} {trueArm : Block}
    {falseArm : Option Block} {c : Conditional}
    (h : Build.conditional kind trueArm falseArm = .ok c) (k : ℕ) :
    Build.conditional (invert^[k] c).kind (invert^[k] c).trueArm (invert^[k] c).falseArm =
        .ok (invert^[k] c) ↔ Even k ∨ trueArm.frame.branch? = none := by
  by_cases hk : Even k
  · rw [involutive_invert.iterate_even hk]
    obtain ⟨rfl, -⟩ := Build.conditional_eq_ok_iff.mp h
    exact iff_of_true h (.inl hk)
  · have hodd : invert^[k] c = c.invert := by
      rw [involutive_invert.iterate_odd (Nat.not_even_iff_odd.mp hk)]
    rw [hodd, (Sound.of_conditional h).invert.rebuilds.eq_ok_iff, ← not_exists,
      exists_staleFault_invert_iff h]
    simp [hk]

end Conditional

/-- A tree that the factories and inversions give is built again from its parts as the same tree,
unless a conditional in it has an arm in the frame of another branch: then the factory's fault for
such an arm ends the pass, and no tree is given. Only an odd number of inversions leaves such an
arm. -/
theorem rebuilds_of_built :
    (∀ b : Block, b.Built → Rebuilds (StaleFault b.events) b.rebuild b) ∧
    (∀ n : Node, n.Built → Rebuilds (StaleFault n.events) n.rebuild n) ∧
    (∀ f : Function, f.Built → Rebuilds (StaleFault f.events) f.rebuild f) ∧
    (∀ p : Program, p.Built → Rebuilds (StaleFault p.events) p.rebuild p) ∧
    (∀ c : Conditional, c.Built →
      Rebuilds c.StaleFault (Build.conditional c.kind c.trueArm c.falseArm) c) ∧
    ∀ kind trueArm falseArm c, Build.conditional kind trueArm falseArm = .ok c →
      ∀ k, Build.conditional (Conditional.invert^[k] c).kind (Conditional.invert^[k] c).trueArm
          (Conditional.invert^[k] c).falseArm = .ok (Conditional.invert^[k] c) ↔
        Even k ∨ trueArm.frame.branch? = none := by
  refine ⟨fun b hb => b.rebuilds hb.sound, fun n hn => n.rebuilds hn.sound,
    fun f hf => hf.rebuilds, fun p hp => hp.rebuilds, fun c hc => hc.sound_self.rebuilds, ?_⟩
  intro kind trueArm falseArm c h k
  exact Conditional.rebuild_iterate_invert_iff h k

/-- A conditional whose one arm takes the branch itself. -/
def referenceSample : Conditional := ⟨.ifTrue, ⟨.ifRef, []⟩, none⟩

lemma conditional_referenceSample :
    Build.conditional .ifTrue ⟨.ifRef, []⟩ none = .ok referenceSample := rfl

lemma built_referenceSample : referenceSample.Built :=
  .conditional (.block .ifRef (by simp)) (by simp) conditional_referenceSample

/-- The complement of `referenceSample` is reached by the factories and cannot be built again: its
frame still takes the branch on the other flag. -/
theorem rebuild_invert_referenceSample :
    referenceSample.invert.Built ∧
      Build.conditional referenceSample.invert.kind referenceSample.invert.trueArm
        referenceSample.invert.falseArm = .error (.contraryFrame .ifFalse .ifRef .ifTrue) ∧
      ¬∀ n : Node, n.Built → n.rebuild = .ok n := by
  refine ⟨.invert built_referenceSample, rfl, fun hall => ?_⟩
  have hrebuild : referenceSample.invert.node.rebuild =
      .error (.contraryFrame .ifFalse .ifRef .ifTrue) := rfl
  rw [hall _ (.conditional (.invert built_referenceSample))] at hrebuild
  cases hrebuild

def twiceInvertedSample : Block := ⟨.pushCont, [referenceSample.invert.invert.node]⟩

def twiceInvertedFunction : Function := ⟨"main", .fragment, ⟨1, 0⟩, twiceInvertedSample⟩

def twiceInvertedProgram : Program := ⟨["version 1"], [twiceInvertedFunction]⟩

lemma built_twiceInvertedSample : twiceInvertedSample.Built := by
  apply Block.Built.block
  rw [List.forall_mem_singleton]
  exact .conditional (.invert (.invert built_referenceSample))

lemma built_twiceInvertedFunction : twiceInvertedFunction.Built :=
  @Function.Built.function "main" _ _ _ _ built_twiceInvertedSample rfl

lemma built_twiceInvertedProgram : twiceInvertedProgram.Built :=
  List.forall_mem_singleton.mpr built_twiceInvertedFunction

lemma not_staleFault_twiceInvertedSample (fault : Fault) :
    ¬StaleFault twiceInvertedSample.events fault := by
  simp [twiceInvertedSample, referenceSample, Block.events, bodyEvents, Node.events, childEvents,
    Conditional.node, Conditional.invert, Conditional.arms, Event.StaleFault,
    Conditional.StaleFault, Frame.branch?, ConditionalKind.inverse]

theorem rebuilds_twiceInvertedSample :
    (twiceInvertedSample.Built ∧ twiceInvertedSample.rebuild = .ok twiceInvertedSample) ∧
      (referenceSample.invert.node.Built ∧
        Rebuilds (StaleFault referenceSample.invert.node.events)
          referenceSample.invert.node.rebuild referenceSample.invert.node) ∧
      (twiceInvertedFunction.Built ∧ twiceInvertedFunction.rebuild = .ok twiceInvertedFunction) ∧
      (twiceInvertedProgram.Built ∧ twiceInvertedProgram.rebuild = .ok twiceInvertedProgram) ∧
      (referenceSample.invert.Built ∧ Rebuilds referenceSample.invert.StaleFault
        (Build.conditional referenceSample.invert.kind referenceSample.invert.trueArm
          referenceSample.invert.falseArm) referenceSample.invert) ∧
      Build.conditional .ifTrue ⟨.ifRef, []⟩ none = .ok referenceSample ∧
      ∀ k, Build.conditional (Conditional.invert^[k] referenceSample).kind
          (Conditional.invert^[k] referenceSample).trueArm
          (Conditional.invert^[k] referenceSample).falseArm =
            .ok (Conditional.invert^[k] referenceSample) ↔
        Even k ∨ Frame.ifRef.branch? = none := by
  have hnode : referenceSample.invert.node.Built := .conditional (.invert built_referenceSample)
  refine ⟨⟨built_twiceInvertedSample, ?_⟩, ⟨hnode, rebuilds_of_built.2.1 _ hnode⟩,
    ⟨built_twiceInvertedFunction, ?_⟩, ⟨built_twiceInvertedProgram, ?_⟩,
    ⟨.invert built_referenceSample,
      rebuilds_of_built.2.2.2.2.1 _ (.invert built_referenceSample)⟩,
    conditional_referenceSample,
    rebuilds_of_built.2.2.2.2.2 _ _ _ _ conditional_referenceSample⟩
  · rw [(rebuilds_of_built.1 _ built_twiceInvertedSample).eq_ok_iff]
    exact not_staleFault_twiceInvertedSample
  · rw [(rebuilds_of_built.2.2.1 _ built_twiceInvertedFunction).eq_ok_iff]
    intro fault
    simpa [Function.events, Event.StaleFault, twiceInvertedFunction] using
      not_staleFault_twiceInvertedSample fault
  · rw [(rebuilds_of_built.2.2.2.1 _ built_twiceInvertedProgram).eq_ok_iff]
    intro fault
    simpa [Program.events, Function.events, Event.StaleFault, twiceInvertedProgram,
      twiceInvertedFunction] using not_staleFault_twiceInvertedSample fault

end TvmAssembly
