import Mathlib.Data.List.ModifyLast
import TvmAssembly.Proofs.BuiltTrees
import TvmAssembly.Proofs.JoinedLines
import TvmAssembly.Proofs.Layout
import TvmAssembly.Proofs.LineRoundTrip

/-!
# Annotations on paper

A location should add a line of its own, and a comment should stand behind the last line of its
instruction: `Layout.annotated` adds the annotations to a layout in this way. A printed text is
taken apart at every line feed, those in the annotations included. So a built block is printed in
this way iff no comment and no file name in it has a line feed; else a part of an annotation stands
on a line like an instruction.
-/

namespace TvmAssembly

/-! ## The code of an instruction -/

namespace Mnemonic

/-- The code does not end in a blank, and it is not empty. -/
def EndsSolid (m : Mnemonic) : Prop :=
  ∃ c, m.code.toList.getLast? = some c ∧ Text.isBlank c = false

lemma WellFormed.endsSolid {m : Mnemonic} (h : m.WellFormed) (hne : m.opcode ≠ "") :
    m.EndsSolid := by
  obtain ⟨opcode, arg, comment⟩ := m
  cases arg with
  | none =>
    obtain ⟨front, c, hopcode⟩ := List.eq_nil_or_concat opcode.toList |>.resolve_left
      (mt String.toList_eq_nil_iff.mp hne)
    refine ⟨c, ?_, h.opcode_solid c (by simp [hopcode])⟩
    simp [code, hopcode]
  | some arg =>
    obtain ⟨front, c, harg⟩ := List.eq_nil_or_concat arg.toList |>.resolve_left
      (mt String.toList_eq_nil_iff.mp (h.arg_ne_empty arg rfl))
    refine ⟨c, ?_, (h.arg_trimmed arg rfl).last c (by simp [harg])⟩
    have hcode : (code ⟨opcode, some arg, comment⟩).toList =
        opcode.toList ++ ' ' :: front ++ [c] := by
      simp [code, harg]
    rw [hcode, List.getLast?_concat]

lemma EndsSolid.code_ne_empty {m : Mnemonic} (h : m.EndsSolid) : m.code ≠ "" := by
  obtain ⟨c, hlast, -⟩ := h
  intro hcode
  simp [hcode] at hlast

lemma EndsSolid.getLast?_ne_lineFeed {m : Mnemonic} (h : m.EndsSolid) :
    m.code.toList.getLast? ≠ some '\n' := by
  obtain ⟨c, hlast, hsolid⟩ := h
  rw [hlast]
  rintro ⟨⟩
  revert hsolid
  decide

end Mnemonic

namespace Opcode

/-- No rule resolves the empty opcode. -/
lemma opcode_ne_empty_of_resolve {m : Mnemonic} {line : String} {signature : Signature}
    (h : (resolveMnemonic m line).outcome = .ok signature) : m.opcode ≠ "" := by
  intro hopcode
  have htable : lookup? "" fixedTable = none := by decide
  have hfamily : Family.ofOpcode? "" = none := by decide
  simp [resolveMnemonic, hopcode, htable, hfamily] at h

lemma opcode_ne_empty_of_resolveThrow {m : Mnemonic} {line : String} {signature : Signature}
    (h : (resolveThrowMnemonic m line).outcome = .ok signature) : m.opcode ≠ "" := by
  intro hopcode
  have htable : lookup? "" throwTable = none := by decide
  simp [resolveThrowMnemonic, hopcode, htable] at h

end Opcode

namespace Leaf.Built

lemma endsSolid_instruction {i : Instruction} (h : (Leaf.instruction i).Built) :
    i.line.EndsSolid := by
  cases h with
  | instruction h =>
    obtain ⟨hline, hresolve⟩ := Build.instruction_eq_ok_iff.mp h
    rw [hline]
    exact (Mnemonic.wellFormed_parse _).endsSolid (Opcode.opcode_ne_empty_of_resolve hresolve)

lemma endsSolid_exit {e : Exit} (h : (Leaf.exit e).Built) : e.line.EndsSolid := by
  cases h with
  | throwing h =>
    obtain ⟨hline, signature, hresolve, -⟩ := Build.throwing_eq_ok_iff.mp h
    rw [hline]
    exact (Mnemonic.wellFormed_parse _).endsSolid
      (Opcode.opcode_ne_empty_of_resolveThrow hresolve)
  | ret => exact ⟨'T', rfl, by decide⟩
  | retIf => exact ⟨'T', rfl, by decide⟩
  | retIfNot => exact ⟨'T', rfl, by decide⟩

end Leaf.Built

/-! ## Where annotations belong -/

/-- A comment stands behind the last line of the code. -/
def Mnemonic.commented (m : Mnemonic) (code : List String) : List String :=
  match m.comment with
  | some comment => code.modifyLast (· ++ (" ;" ++ comment))
  | none => code

/-- The lines of a leaf with its annotation, from those of its code alone. -/
def Leaf.annotate : Leaf → List String → List String
  | .location l, _ => [l.text]
  | .instruction i, code => i.line.commented code
  | .exit e, code => e.line.commented code
  | _, code => code

/-- The same layout with annotations. -/
def Layout.annotated (L : Layout) : Layout :=
  { L with leaf := fun l => l.annotate (L.leaf l) }

/-- The annotation of the leaf has no line feed. -/
def Leaf.Inline : Leaf → Prop
  | .location l => '\n' ∉ l.file.toList
  | .instruction i => ∀ comment, i.line.comment = some comment → '\n' ∉ comment.toList
  | .exit e => ∀ comment, e.line.comment = some comment → '\n' ∉ comment.toList
  | _ => True

namespace Style

/-- Code alone. -/
def plain (indent : String) : Style := ⟨indent, false, false⟩

/-- Code with comments and locations. -/
def annotated (indent : String) : Style := ⟨indent, true, true⟩

end Style

/-! ## Lists of lines that may only grow -/

/-- `ys` has no fewer lines than `xs`, and it has the same ones just in case `P` holds. -/
structure Widens (P : Prop) (xs ys : List String) : Prop where
  length_le : xs.length ≤ ys.length
  eq_iff : xs = ys ↔ P

namespace Widens

variable {P Q : Prop} {xs ys xs' ys' : List String}

lemma refl (xs : List String) : Widens True xs xs :=
  ⟨le_rfl, iff_of_true rfl trivial⟩

lemma congr (h : Widens P xs ys) (hPQ : P ↔ Q) : Widens Q xs ys :=
  ⟨h.length_le, h.eq_iff.trans hPQ⟩

/-- Of two parts, neither can make up for the other. -/
lemma append (h : Widens P xs ys) (h' : Widens Q xs' ys') :
    Widens (P ∧ Q) (xs ++ xs') (ys ++ ys') where
  length_le := by
    rw [List.length_append, List.length_append]
    exact Nat.add_le_add h.length_le h'.length_le
  eq_iff := by
    rw [← h.eq_iff, ← h'.eq_iff]
    constructor
    · intro heq
      have hlen := congrArg List.length heq
      rw [List.length_append, List.length_append] at hlen
      have hle := h.length_le
      have hle' := h'.length_le
      exact List.append_inj heq (by omega)
    · rintro ⟨rfl, rfl⟩
      rfl

lemma map {f : String → String} (hf : Function.Injective f) (h : Widens P xs ys) :
    Widens P (xs.map f) (ys.map f) where
  length_le := by
    rw [List.length_map, List.length_map]
    exact h.length_le
  eq_iff := (List.map_inj_right hf).trans h.eq_iff

end Widens

/-! ## Leaves -/

lemma Mnemonic.EndsSolid.widens {m : Mnemonic} (h : m.EndsSolid) :
    Widens (∀ comment, m.comment = some comment → '\n' ∉ comment.toList)
      (m.commented (Text.lines m.code)) (Text.lines m.render) := by
  cases hcomment : m.comment with
  | none =>
    have hrender : m.render = m.code := by simp [render, hcomment]
    rw [commented, hcomment, hrender]
    exact (Widens.refl _).congr (by simp)
  | some comment =>
    have hrender : m.render = m.code ++ (" ;" ++ comment) := by
      simp [render, hcomment, String.append_assoc]
    have hne : " ;" ++ comment ≠ "" := by simp
    have hhead : (" ;" ++ comment).toList.head? ≠ some '\n' := by simp
    have hinline : Text.lines (" ;" ++ comment) = [" ;" ++ comment] ↔ '\n' ∉ comment.toList := by
      rw [Text.lines_eq_singleton_iff]
      simp
    obtain ⟨front, last, first, rest, hcode, hbehind, happend⟩ :=
      Text.lines_append h.code_ne_empty h.getLast?_ne_lineFeed hne hhead
    rw [commented, hcomment, hrender, happend, hcode]
    simp only [List.modifyLast_concat]
    refine ⟨by simp, ?_⟩
    rw [List.append_cancel_left_eq, List.cons.injEq, String.append_right_inj]
    simp only [Option.some.injEq, forall_eq']
    rw [← hinline, hbehind, List.cons.injEq]
    exact and_congr eq_comm eq_comm

lemma Location.lineFeed_mem_text {l : Location} : '\n' ∈ l.text.toList ↔ '\n' ∈ l.file.toList := by
  have hdigits : '\n' ∉ Nat.toDigits 10 l.line.toNat := by
    intro h
    have hdigit := Nat.isDigit_of_mem_toDigits (by decide) (by decide) h
    revert hdigit
    decide
  simp [text, Text.decimal, hdigits]

lemma Location.widens (l : Location) :
    Widens ('\n' ∉ l.file.toList) [l.text] (Text.lines l.text) := by
  have hne : l.text ≠ "" := by simp [text]
  have hlines : Text.lines l.text ≠ [] := by
    simp [Text.lines, Text.lineChars_eq_nil_iff, hne]
  refine ⟨List.length_pos_iff.mpr hlines, ?_⟩
  rw [eq_comm, Text.lines_eq_singleton_iff, lineFeed_mem_text]
  exact and_iff_right hne

lemma Leaf.Built.widens {l : Leaf} (h : l.Built) (indent : String) :
    Widens l.Inline ((Style.plain indent).layout.annotated.leaf l)
      ((Style.annotated indent).layout.leaf l) := by
  cases l with
  | location l => exact l.widens
  | instruction i => exact h.endsSolid_instruction.widens
  | exit e => exact h.endsSolid_exit.widens
  | _ => exact Widens.refl _

/-! ## Trees -/

/-- The predicate holds of the leaves among the events. -/
def OfLeaves (P : Leaf → Prop) (events : List Event) : Prop :=
  ∀ l, Event.leaf l ∈ events → P l

section

variable {P : Leaf → Prop}

lemma ofLeaves_nil : OfLeaves P [] ↔ True := by
  simp [OfLeaves]

lemma ofLeaves_leaf {l : Leaf} : OfLeaves P [.leaf l] ↔ P l := by
  simp [OfLeaves]

lemma ofLeaves_enter {c : Container} {events : List Event} :
    OfLeaves P (.enter c :: events) ↔ OfLeaves P events := by
  simp [OfLeaves]

lemma ofLeaves_leave {b : Block} : OfLeaves P [.leave b] ↔ True := by
  simp [OfLeaves]

lemma ofLeaves_append {es fs : List Event} :
    OfLeaves P (es ++ fs) ↔ OfLeaves P es ∧ OfLeaves P fs := by
  simp [OfLeaves, or_imp, forall_and]

end

/-- Two layouts differ in the leaves alone: those that a factory gives may have more lines in the
second one, and have the same lines just in case `P` holds of them. -/
structure Layout.Widening (P : Leaf → Prop) (K L : Layout) : Prop where
  indent_eq : K.indent = L.indent
  leaf : ∀ l, l.Built → Widens (P l) (K.leaf l) (L.leaf l)

namespace Layout.Widening

variable {P : Leaf → Prop} {K L : Layout}

lemma enclosed (h : Widening P K L) {p : Prop} (header : String) {xs ys : List String}
    (hcode : Widens p xs ys) : Widens p (K.enclosed header xs) (L.enclosed header ys) := by
  have hshift : K.shift = L.shift := by
    funext line
    rw [shift, shift, h.indent_eq]
  rw [Layout.enclosed, Layout.enclosed, hshift]
  have hshifted := hcode.map L.shift_injective
  refine ((Widens.refl _).append (hshifted.append (Widens.refl _))).congr ?_
  simp

-- The events of a node are split as its lines are, so the conditions of the parts are put together
-- by `Widens.append`; lines that no leaf decides, such as headers, ask for nothing.
mutual

theorem node (h : Widening P K L) : (n : Node) → (∀ e ∈ n.events, e.Built) →
    Widens (OfLeaves P n.events) (K.node n) (L.node n)
  | .leaf l, hn => by
    have hbuilt : (Event.leaf l).Built := List.forall_mem_singleton.mp hn
    exact (h.leaf l hbuilt).congr ofLeaves_leaf.symm
  | .sealed b _, hn => by
    have hcode := inside h b (List.forall_mem_cons.mp hn).2
    exact (h.enclosed _ hcode).congr ofLeaves_enter.symm
  | .data k t c, hn => by
    obtain ⟨hd, hc⟩ := List.forall_mem_cons.mp hn
    have hsound : DataPush.Sound ⟨k, t, c⟩ := hd
    rw [Node.events, ofLeaves_enter, Layout.node, Layout.node]
    by_cases hk : k = .inlineSlice
    · -- an inline slice is printed without a child, and it has none
      obtain rfl : c = none := hsound.child_eq_none hk
      rw [if_pos hk, if_pos hk]
      exact (Widens.refl _).congr ofLeaves_nil.symm
    · rw [if_neg hk, if_neg hk]
      have hcode := (Widens.refl (blob t)).append (insideChild h c hc)
      exact (h.enclosed _ hcode).congr (by simp)
  | .block b, hn => h.enclosed _ (inside h b hn)
  | .conditional _ t (some f), hn => by
    obtain ⟨ht, hf⟩ := List.forall_mem_append.mp (List.forall_mem_cons.mp hn).2
    have htrue := h.enclosed t.frame.token (inside h t ht)
    have hfalse := h.enclosed f.frame.token (inside h f hf)
    rw [Node.events, ofLeaves_enter, ofLeaves_append, childEvents]
    exact ((htrue.append hfalse).append (Widens.refl _)).congr (by simp)
  | .conditional _ t none, hn => by
    obtain ⟨ht, -⟩ := List.forall_mem_append.mp (List.forall_mem_cons.mp hn).2
    have harm (header : String) := h.enclosed header (inside h t ht)
    rw [Node.events, ofLeaves_enter, ofLeaves_append, childEvents, ofLeaves_nil, and_true,
      Layout.node, Layout.node]
    split
    · exact ((harm _).append (Widens.refl _)).congr (by simp)
    · split
      · exact harm _
      · exact ((harm _).append (Widens.refl _)).congr (by simp)
  | .repeatLoop _ b, hn => by
    have hbody := h.enclosed b.frame.token (inside h b (List.forall_mem_cons.mp hn).2)
    rw [Node.events, ofLeaves_enter]
    exact (hbody.append (Widens.refl _)).congr (by simp)
  | .whileLoop c b _, hn => by
    obtain ⟨hc, hb⟩ := List.forall_mem_append.mp (List.forall_mem_cons.mp hn).2
    have hcondition := h.enclosed c.frame.token (inside h c hc)
    have hbody := h.enclosed b.frame.token (inside h b hb)
    rw [Node.events, ofLeaves_enter, ofLeaves_append]
    exact ((hcondition.append hbody).append (Widens.refl _)).congr (by simp)
  termination_by structural n => n

theorem inside (h : Widening P K L) : (b : Block) → (∀ e ∈ b.events, e.Built) →
    Widens (OfLeaves P b.events) (K.inside b) (L.inside b)
  | ⟨_, ns⟩, hb => by
    rw [Block.events, ofLeaves_enter, ofLeaves_append, ofLeaves_leave, and_true]
    exact nodes h ns (Block.forall_mem_events.mp hb).2.1
  termination_by structural b => b

theorem insideChild (h : Widening P K L) : (c : Option Block) →
    (∀ e ∈ childEvents c, e.Built) →
      Widens (OfLeaves P (childEvents c)) (K.insideChild c) (L.insideChild c)
  | none, _ => (Widens.refl _).congr ofLeaves_nil.symm
  | some b, hb => inside h b hb
  termination_by structural c => c

theorem nodes (h : Widening P K L) : (ns : List Node) →
    (∀ n ∈ ns, ∀ e ∈ n.events, e.Built) →
      Widens (OfLeaves P (bodyEvents ns)) (K.nodes ns) (L.nodes ns)
  | [], _ => (Widens.refl _).congr ofLeaves_nil.symm
  | n :: ns, hnodes => by
    obtain ⟨hn, hns⟩ := List.forall_mem_cons.mp hnodes
    rw [bodyEvents, ofLeaves_append]
    exact (node h n hn).append (nodes h ns hns)
  termination_by structural ns => ns

end

end Layout.Widening

/-! ## Blocks -/

lemma Style.widening (indent : String) :
    Layout.Widening Leaf.Inline (plain indent).layout.annotated (annotated indent).layout where
  indent_eq := rfl
  leaf _ hl := hl.widens indent

lemma Block.Built.widens {b : Block} (h : b.Built) (indent : String) :
    Widens (∀ l, Event.leaf l ∈ b.events → l.Inline)
      ((Style.plain indent).layout.annotated.block b) (b.printedLines (.annotated indent)) := by
  have hwidening := Style.widening indent
  rw [Block.printedLines_eq, Layout.block, Layout.block]
  exact hwidening.enclosed _ (hwidening.inside b h.events)

/-- The text of a block is its lines, each with a line feed behind it. Without comments and
locations these are the lines of the code. With them they are the lines of the code with the
annotations added, just in case no annotation in the block has a line feed; if one has, there are
still no fewer of them. -/
theorem Block.Built.annotated_lines_iff_inline {b : Block} (hb : b.Built) (indent : String) :
    let code := (Style.plain indent).layout
    (∀ style, b.print style = String.join ((b.printedLines style).map (· ++ "\n"))) ∧
      b.printedLines (.plain indent) = code.block b ∧
      (code.annotated.block b).length ≤ (b.printedLines (.annotated indent)).length ∧
      (b.printedLines (.annotated indent) = code.annotated.block b ↔
        ∀ l, Event.leaf l ∈ b.events → l.Inline) := by
  intro code
  have hwidens := hb.widens indent
  refine ⟨fun style => b.print_eq_join style, ?_, hwidens.length_le, ?_⟩
  · exact b.printedLines_eq (.plain indent)
  · rw [eq_comm]
    exact hwidens.eq_iff

/-- A sum with a location and a comment, each on one line. -/
def commentedSum : Block :=
  ⟨.pushCont, [.leaf (.location ⟨"sum.fc", 3⟩),
    .leaf (.instruction ⟨⟨"ADD", none, some "sum"⟩, ⟨⟨2, 1⟩, false⟩⟩)]⟩

theorem annotated_lines_commentedSum :
    commentedSum.Built ∧
      commentedSum.printedLines (.plain "  ") = ["PUSHCONT \x7b", "  ADD", "\x7d"] ∧
      commentedSum.printedLines (.annotated "  ") =
        ["PUSHCONT \x7b", "  .loc sum.fc, 3", "  ADD ;sum", "\x7d"] := by
  have hbuilt : commentedSum.Built := by
    refine .block .pushCont ?_
    simp only [List.forall_mem_cons]
    exact ⟨.leaf (.location _), .leaf (@Leaf.Built.instruction "ADD ;sum" _ rfl), by simp⟩
  obtain ⟨-, hplain, -, hannotated⟩ := hbuilt.annotated_lines_iff_inline "  "
  refine ⟨hbuilt, hplain.trans (by decide), (hannotated.mpr ?_).trans (by decide)⟩
  simp [commentedSum, Block.events, bodyEvents, Node.events, Leaf.Inline]

/-- A sum whose comment goes on behind a line feed. -/
def wrappedSum : Block :=
  ⟨.pushCont, [.leaf (.instruction ⟨⟨"ADD", none, some "sum\nDROP"⟩, ⟨⟨2, 1⟩, false⟩⟩)]⟩

/-- A sum, and then a drop. -/
def droppedSum : Block :=
  ⟨.pushCont, [.leaf (.instruction ⟨⟨"ADD", none, some "sum"⟩, ⟨⟨2, 1⟩, false⟩⟩),
    .leaf (.stack (.drop 1))]⟩

/-- What stands behind the line feed of a comment is printed like an instruction of its own: nobody
can tell the sum whose comment goes on from the one that is dropped. -/
theorem annotated_lines_wrappedSum :
    wrappedSum.Built ∧ droppedSum.Built ∧
      wrappedSum.printedLines (.plain "\t") = ["PUSHCONT \x7b", "\tADD", "\x7d"] ∧
      wrappedSum.printedLines (.annotated "\t") =
        ["PUSHCONT \x7b", "\tADD ;sum", "\tDROP", "\x7d"] ∧
      wrappedSum.print (.annotated "\t") = droppedSum.print (.annotated "\t") ∧
      ¬∀ b : Block, b.Built → ∀ indent, b.printedLines (.annotated indent) =
        (Style.plain indent).layout.annotated.block b := by
  have hwrapped : wrappedSum.Built := by
    refine .block .pushCont ?_
    simp only [List.forall_mem_cons]
    exact ⟨.leaf (@Leaf.Built.instruction "ADD ;sum\nDROP" _ rfl), by simp⟩
  have hdropped : droppedSum.Built := by
    refine .block .pushCont ?_
    simp only [List.forall_mem_cons]
    exact ⟨.leaf (@Leaf.Built.instruction "ADD ;sum" _ rfl),
      .leaf (@Leaf.Built.drop 1 _ rfl), by simp⟩
  have hlines : wrappedSum.printedLines (.annotated "\t") =
      droppedSum.printedLines (.annotated "\t") := by decide
  refine ⟨hwrapped, hdropped, by decide, by decide, ?_, fun hall => ?_⟩
  · rw [Block.print_eq_join, Block.print_eq_join, hlines]
  · exact absurd (hall wrappedSum hwrapped "\t") (by decide)

end TvmAssembly
