/-!
# Kinds of tree nodes

The closed lists that structural nodes choose from: how a block is framed, which branch a
conditional takes, how a loop or a literal is written, what a function is for. Each kind has a name,
a position among its fellows, and the token it is written with in assembly.
-/

namespace TvmAssembly

/-- How a code block is encoded and invoked. The four branching frames also take a branch. -/
inductive Frame where
  | pushCont
  | pushRefCont
  | callRef
  | callX
  | ifRef
  | ifNotRef
  | ifJmpRef
  | ifNotJmpRef
  | pushRef
deriving DecidableEq, Repr

/-- Which branch is taken, on which flag. The last two kinds have an arm for either flag. -/
inductive ConditionalKind where
  | ifTrue
  | ifFalse
  | jumpIfTrue
  | jumpIfFalse
  | ifElse
  | jumpIfElse
deriving DecidableEq, Repr

/-- A counted loop, or one that runs until its body leaves a true flag. -/
inductive RepeatKind where
  | counted
  | untilTrue
deriving DecidableEq, Repr

/-- How a literal reaches the stack. A nested cell does not: it adds a reference to the cell
around it. -/
inductive DataKind where
  | reference
  | referencedSlice
  | inlineSlice
  | nestedCell
deriving DecidableEq, Repr

inductive FunctionKind where
  | fragment
  | inlined
  | internalMessage
  | externalMessage
  | codeUpgrade
  | tickTock
deriving DecidableEq, Repr

namespace Frame

def all : List Frame :=
  [pushCont, pushRefCont, callRef, callX, ifRef, ifNotRef, ifJmpRef, ifNotJmpRef, pushRef]

def index (f : Frame) : Nat := f.ctorIdx

def name : Frame → String
  | pushCont => "PushCont"
  | pushRefCont => "PushRefCont"
  | callRef => "CallRef"
  | callX => "CallX"
  | ifRef => "IfRef"
  | ifNotRef => "IfNotRef"
  | ifJmpRef => "IfJmpRef"
  | ifNotJmpRef => "IfNotJmpRef"
  | pushRef => "PushRef"

def token : Frame → String
  | pushCont => "PUSHCONT"
  | pushRefCont => "PUSHREFCONT"
  | callRef => "CALLREF"
  | callX => "CALLX"
  | ifRef => "IFREF"
  | ifNotRef => "IFNOTREF"
  | ifJmpRef => "IFJMPREF"
  | ifNotJmpRef => "IFNOTJMPREF"
  | pushRef => "PUSHREF"

/-- The one-armed conditional that a branching frame encodes. -/
def branch? : Frame → Option ConditionalKind
  | ifRef => some .ifTrue
  | ifNotRef => some .ifFalse
  | ifJmpRef => some .jumpIfTrue
  | ifNotJmpRef => some .jumpIfFalse
  | pushCont | pushRefCont | callRef | callX | pushRef => none

def isBranching (f : Frame) : Bool :=
  f.branch?.isSome

end Frame

namespace ConditionalKind

def all : List ConditionalKind :=
  [ifTrue, ifFalse, jumpIfTrue, jumpIfFalse, ifElse, jumpIfElse]

def index (k : ConditionalKind) : Nat := k.ctorIdx

def name : ConditionalKind → String
  | ifTrue => "If"
  | ifFalse => "IfNot"
  | jumpIfTrue => "IfJmp"
  | jumpIfFalse => "IfNotJmp"
  | ifElse => "IfElse"
  | jumpIfElse => "IfElseWithJmp"

/-- The instructions that take the branch once the arms are on the stack. -/
def mnemonic : ConditionalKind → String
  | ifTrue => "IF"
  | ifFalse => "IFNOT"
  | jumpIfTrue => "IFJMP"
  | jumpIfFalse => "IFNOTJMP"
  | ifElse => "IFELSE"
  | jumpIfElse => "CONDSEL\nJMPX"

def isTwoArmed : ConditionalKind → Bool
  | ifElse | jumpIfElse => true
  | ifTrue | ifFalse | jumpIfTrue | jumpIfFalse => false

/-- Whether the branch leaves the current continuation for good. -/
def isJump : ConditionalKind → Bool
  | jumpIfTrue | jumpIfFalse | jumpIfElse => true
  | ifTrue | ifFalse | ifElse => false

/-- The kind that branches on the other flag. With two arms the arms trade places instead. -/
def inverse : ConditionalKind → ConditionalKind
  | ifTrue => ifFalse
  | ifFalse => ifTrue
  | jumpIfTrue => jumpIfFalse
  | jumpIfFalse => jumpIfTrue
  | ifElse => ifElse
  | jumpIfElse => jumpIfElse

@[simp]
theorem inverse_inverse (k : ConditionalKind) : k.inverse.inverse = k := by
  cases k <;> rfl

@[simp]
theorem isTwoArmed_inverse (k : ConditionalKind) : k.inverse.isTwoArmed = k.isTwoArmed := by
  cases k <;> rfl

theorem inverse_ne_self {k : ConditionalKind} (h : k.isTwoArmed = false) : k.inverse ≠ k := by
  cases k <;> simp_all [inverse, isTwoArmed]

@[simp]
theorem isJump_inverse (k : ConditionalKind) : k.inverse.isJump = k.isJump := by
  cases k <;> rfl

end ConditionalKind

/-- Only branches without a second arm are encoded in a frame. -/
theorem Frame.isTwoArmed_of_branch?_eq_some {f : Frame} {k : ConditionalKind}
    (h : f.branch? = some k) : k.isTwoArmed = false := by
  cases f <;> simp only [Frame.branch?, reduceCtorEq, Option.some.injEq] at h <;> subst h <;> rfl

/-- A frame that could only take a branch with two arms takes none. -/
theorem Frame.branch?_eq_none_of_isTwoArmed {f : Frame}
    (h : ∀ encoded, f.branch? = some encoded → encoded.isTwoArmed = true) : f.branch? = none := by
  cases hbranch : f.branch? with
  | none => rfl
  | some encoded =>
    have hone := isTwoArmed_of_branch?_eq_some hbranch
    rw [h encoded hbranch] at hone
    cases hone

namespace RepeatKind

def all : List RepeatKind := [counted, untilTrue]

def index (k : RepeatKind) : Nat := k.ctorIdx

def name : RepeatKind → String
  | counted => "Repeat"
  | untilTrue => "Until"

def mnemonic : RepeatKind → String
  | counted => "REPEAT"
  | untilTrue => "UNTIL"

end RepeatKind

/-- The instruction of a loop that tests a condition before each turn. -/
def whileMnemonic (canBreak : Bool) : String :=
  if canBreak then "WHILEBRK" else "WHILE"

namespace DataKind

def all : List DataKind := [reference, referencedSlice, inlineSlice, nestedCell]

def index (k : DataKind) : Nat := k.ctorIdx

def name : DataKind → String
  | reference => "PushRef"
  | referencedSlice => "PushRefSlice"
  | inlineSlice => "PushSlice"
  | nestedCell => "Cell"

def token : DataKind → String
  | reference => "PUSHREF"
  | referencedSlice => "PUSHREFSLICE"
  | inlineSlice => "PUSHSLICE"
  | nestedCell => ".cell"

end DataKind

namespace FunctionKind

def all : List FunctionKind :=
  [fragment, inlined, internalMessage, externalMessage, codeUpgrade, tickTock]

def index (k : FunctionKind) : Nat := k.ctorIdx

def name : FunctionKind → String
  | fragment => "Fragment"
  | inlined => "Macro"
  | internalMessage => "MainInternal"
  | externalMessage => "MainExternal"
  | codeUpgrade => "OnCodeUpgrade"
  | tickTock => "OnTickTock"

/-- The assembler directive that opens a function of this kind. -/
def directive : FunctionKind → String
  | fragment => ".fragment"
  | inlined => ".macro"
  | internalMessage => ".internal"
  | externalMessage => ".external"
  | codeUpgrade => ".on-code-upgrade"
  | tickTock => ".on-tick-tock"

end FunctionKind

end TvmAssembly
