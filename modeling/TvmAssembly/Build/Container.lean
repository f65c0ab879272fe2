import TvmAssembly.Fault
import TvmAssembly.Text.Blank
import TvmAssembly.Tree.Basic

/-!
# Building containers

A conditional needs the arms its kind takes, in frames that encode no other branch. A literal needs
something to push, a function a name. Blocks, loops and sealed blocks are built from any parts.
-/

namespace TvmAssembly.Build

/-- Whether a conditional of this kind can have an arm in this frame. -/
def admitFrame (kind : ConditionalKind) (frame : Frame) : Except Fault Unit :=
  match frame.branch? with
  | none => .ok ()
  | some encoded =>
    if kind.isTwoArmed then .error (.branchingArm kind frame)
    else if encoded = kind then .ok ()
    else .error (.contraryFrame kind frame encoded)

/-- Whether the kind takes as many arms as there are. -/
def admitArms (kind : ConditionalKind) (hasFalseArm : Bool) : Except Fault Unit :=
  match kind.isTwoArmed, hasFalseArm with
  | true, false => .error (.missingArm kind)
  | false, true => .error (.surplusArm kind)
  | true, true | false, false => .ok ()

def conditional (kind : ConditionalKind) (trueArm : Block) (falseArm : Option Block) :
    Except Fault Conditional := do
  admitArms kind falseArm.isSome
  admitFrame kind trueArm.frame
  match falseArm with
  | some arm => admitFrame kind arm.frame
  | none => .ok ()
  return ⟨kind, trueArm, falseArm⟩

def counted (body : Block) : RepeatLoop := ⟨.counted, body⟩

def untilTrue (body : Block) : RepeatLoop := ⟨.untilTrue, body⟩

def whileLoop (condition body : Block) (canBreak : Bool) : WhileLoop := ⟨condition, body, canBreak⟩

def block (frame : Frame) (body : List Node) : Block := ⟨frame, body⟩

def sealed (block : Block) (signature : Signature) : Sealed := ⟨block, signature⟩

/-- A literal of any kind. Only an inline slice cannot hold code, and none can be empty. -/
def literal (kind : DataKind) (text : String) (child : Option Block) : Except Fault DataPush :=
  if kind = .inlineSlice ∧ child.isSome then .error .codeInSlice
  else if text = "" ∧ child.isNone then .error (.emptyLiteral kind)
  else .ok ⟨kind, text, child⟩

/-- A literal that reaches the stack. -/
def dataPush (kind : DataKind) (text : String) (child : Option Block) : Except Fault DataPush :=
  if kind = .nestedCell then .error .strayCell else literal kind text child

/-- A cell for the code of another literal. -/
def cell (text : String) (child : Option Block) : Except Fault DataPush :=
  literal .nestedCell text child

def reference (text : String) : Except Fault DataPush :=
  dataPush .reference text none

/-- A name is more than blanks; it is kept as it is given. -/
def function (name : String) (kind : FunctionKind) (effect : StackEffect) (block : Block) :
    Except Fault Function :=
  if name.toList.all Text.isBlank then .error .namelessFunction
  else .ok ⟨name, kind, effect, block⟩

theorem admitFrame_eq_ok_iff {kind : ConditionalKind} {frame : Frame} :
    admitFrame kind frame = .ok () ↔ ∀ encoded, frame.branch? = some encoded → encoded = kind := by
  unfold admitFrame
  split
  · next h => simp [h]
  · next encoded h =>
    have hone := Frame.isTwoArmed_of_branch?_eq_some h
    by_cases he : encoded = kind
    · subst he
      simp [h, hone]
    · split <;> simp [h, he]

theorem admitArms_eq_ok_iff {kind : ConditionalKind} {hasFalseArm : Bool} :
    admitArms kind hasFalseArm = .ok () ↔ hasFalseArm = kind.isTwoArmed := by
  unfold admitArms
  split <;> simp_all

theorem conditional_eq_ok_iff {kind : ConditionalKind} {trueArm : Block}
    {falseArm : Option Block} {c : Conditional} :
    conditional kind trueArm falseArm = .ok c ↔
      c = ⟨kind, trueArm, falseArm⟩ ∧ falseArm.isSome = kind.isTwoArmed ∧
        ∀ arm ∈ c.arms, ∀ encoded, arm.frame.branch? = some encoded → encoded = kind := by
  rw [conditional, Fault.check_eq_ok_iff, Fault.check_eq_ok_iff, admitArms_eq_ok_iff,
    admitFrame_eq_ok_iff]
  cases falseArm with
  | none =>
    constructor
    · rintro ⟨ha, ht, h⟩
      obtain rfl := Except.ok.inj h
      exact ⟨rfl, ha, by simpa [Conditional.arms] using ht⟩
    · rintro ⟨rfl, ha, h⟩
      exact ⟨ha, h trueArm (by simp [Conditional.arms]), rfl⟩
  | some arm =>
    rw [Fault.check_eq_ok_iff, admitFrame_eq_ok_iff]
    constructor
    · rintro ⟨ha, ht, hf, h⟩
      obtain rfl := Except.ok.inj h
      exact ⟨rfl, ha, by simpa [Conditional.arms] using ⟨ht, hf⟩⟩
    · rintro ⟨rfl, ha, h⟩
      exact ⟨ha, h trueArm (by simp [Conditional.arms]), h arm (by simp [Conditional.arms]), rfl⟩

theorem literal_eq_ok_iff {kind : DataKind} {text : String} {child : Option Block} {d : DataPush} :
    literal kind text child = .ok d ↔
      d = ⟨kind, text, child⟩ ∧ (kind = .inlineSlice → child = none) ∧ (text = "" → child ≠ none) := by
  unfold literal
  split
  · next h =>
    obtain ⟨hk, hc⟩ := h
    have hne : child ≠ none := by simpa [Option.isSome_iff_ne_none] using hc
    simp [hk, hne]
  · next hslice =>
    split
    · next h =>
      have hnone : child = none := by simpa using h.2
      simp [h.1, hnone]
    · next hempty =>
      have hs : kind = .inlineSlice → child = none := by simpa using hslice
      have he : text = "" → child ≠ none := by simpa using hempty
      exact ⟨fun h => ⟨(Except.ok.inj h).symm, hs, he⟩, fun ⟨h, _⟩ => h ▸ rfl⟩

theorem dataPush_eq_ok_iff {kind : DataKind} {text : String} {child : Option Block}
    {d : DataPush} :
    dataPush kind text child = .ok d ↔ kind ≠ .nestedCell ∧ literal kind text child = .ok d := by
  unfold dataPush
  split <;> simp [*]

theorem function_eq_ok_iff {name : String} {kind : FunctionKind} {effect : StackEffect}
    {block : Block} {f : Function} :
    function name kind effect block = .ok f ↔
      f = ⟨name, kind, effect, block⟩ ∧ ∃ c ∈ name.toList, Text.isBlank c = false := by
  unfold function
  split
  · next h => simpa using fun _ => h
  · next h =>
    have hname : ∃ c ∈ name.toList, Text.isBlank c = false := by simpa using h
    exact ⟨fun h => ⟨(Except.ok.inj h).symm, hname⟩, fun ⟨h, _⟩ => h ▸ rfl⟩

end TvmAssembly.Build
