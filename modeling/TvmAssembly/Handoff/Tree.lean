import TvmAssembly.Handoff.Datum
import TvmAssembly.Tree.Basic

/-!
# Trees as data

Each type of the tree as a record of its parts, annotations and names included. A node is tagged
with its kind.
-/

namespace TvmAssembly

def Frame.datum (f : Frame) : Datum := .choice f.index f.name

def ConditionalKind.datum (k : ConditionalKind) : Datum := .choice k.index k.name

def RepeatKind.datum (k : RepeatKind) : Datum := .choice k.index k.name

def DataKind.datum (k : DataKind) : Datum := .choice k.index k.name

def FunctionKind.datum (k : FunctionKind) : Datum := .choice k.index k.name

def GlobalMode.datum (m : GlobalMode) : Datum := .choice m.index m.name

def StackEffect.fields (e : StackEffect) : List Field :=
  [⟨"take", .word e.take⟩, ⟨"ret", .word e.ret⟩]

def Signature.fields (s : Signature) : List Field :=
  s.effect.fields ++ [⟨"pure", .flag s.isPure⟩]

def Mnemonic.fields (m : Mnemonic) : List Field :=
  [⟨"opcode", .text m.opcode⟩, ⟨"arg", .optional .text m.arg⟩,
    ⟨"comment", .optional .text m.comment⟩]

def StackOp.datum (op : StackOp) : Datum :=
  let (i, j, k) := op.operands
  .record [⟨"opcode", .choice op.index op.name⟩, ⟨"i", .byte i⟩, ⟨"j", .byte j⟩, ⟨"k", .byte k⟩]

def Leaf.datum : Leaf → Datum
  | .location l => .tagged 0 "Loc" (.record [⟨"file", .text l.file⟩, ⟨"line", .word l.line⟩])
  | .stack op => .tagged 1 "Stack" op.datum
  | .global op => .tagged 2 "Glob" (.record [⟨"mode", op.mode.datum⟩, ⟨"index", .byte op.index⟩])
  | .instruction i => .tagged 3 "Opcode" (.record (i.line.fields ++ i.signature.fields))
  | .verbatim v =>
    .tagged 4 "HardCode" (.record (⟨"lines", .list (v.lines.map .text)⟩ :: v.signature.fields))
  | .exit e => .tagged 5 "Control" (.record (e.line.fields ++ e.effect.fields))

mutual

def Node.datum : Node → Datum
  | .leaf l => l.datum
  | .sealed b s => .tagged 6 "Opaque" (.record (⟨"block", b.datum⟩ :: s.fields))
  | .data k t c =>
    .tagged 7 "Data" (.record [⟨"kind", k.datum⟩, ⟨"data", .text t⟩, ⟨"child", childDatum c⟩])
  | .block b => .tagged 8 "Block" b.datum
  | .conditional k t f =>
    .tagged 9 "If"
      (.record [⟨"kind", k.datum⟩, ⟨"true_body", t.datum⟩, ⟨"false_body", childDatum f⟩])
  | .repeatLoop k b => .tagged 10 "Repeat" (.record [⟨"kind", k.datum⟩, ⟨"body", b.datum⟩])
  | .whileLoop c b p =>
    .tagged 11 "While"
      (.record [⟨"condition", c.datum⟩, ⟨"body", b.datum⟩, ⟨"with_break", .flag p⟩])
  termination_by structural n => n

def Block.datum : Block → Datum
  | ⟨f, ns⟩ => .record [⟨"kind", f.datum⟩, ⟨"instructions", .list (nodeData ns)⟩]
  termination_by structural b => b

def childDatum : Option Block → Datum
  | none => .absent
  | some b => .present b.datum
  termination_by structural c => c

def nodeData : List Node → List Datum
  | [] => []
  | n :: ns => n.datum :: nodeData ns
  termination_by structural ns => ns

end

def Function.datum (f : Function) : Datum :=
  .record ([⟨"name", .text f.name⟩, ⟨"kind", f.kind.datum⟩] ++ f.effect.fields ++
    [⟨"block", f.block.datum⟩])

def Program.datum (p : Program) : Datum :=
  .record [⟨"pragmas", .list (p.pragmas.map .text)⟩,
    ⟨"functions", .list (p.functions.map Function.datum)⟩]

end TvmAssembly
