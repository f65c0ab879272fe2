import TvmAssembly.Proofs.Polarity

/-!
# Frames of printed loops

A loop runs continuations that it takes from the stack. A frame that takes a branch leaves none; it
is for the arm of a conditional, and where a conditional has no use for it the factory refuses it or
the printer replaces it (`Conditional.Sound.printedAs`). Loops are built from any blocks and printed
as they are: each block stands under its own frame (`LoopOf.printsUnder_iff`).
-/

namespace TvmAssembly

/-- The loop that a factory gives for the blocks, and the instruction that runs them. -/
inductive LoopOf : Node → List Block → String → Prop
  | counted (body : Block) : LoopOf (Build.counted body).node [body] "REPEAT"
  | untilTrue (body : Block) : LoopOf (Build.untilTrue body).node [body] "UNTIL"
  | whileLoop (condition body : Block) (canBreak : Bool) :
      LoopOf (Build.whileLoop condition body canBreak).node [condition, body]
        (if canBreak then "WHILEBRK" else "WHILE")

/-- On paper the blocks stand in order under the frames, and then follows the instruction. -/
structure Printer.PrintsUnder (p : Printer) (n : Node) (frames : List Frame) (blocks : List Block)
    (instruction : String) : Prop where
  length_eq : frames.length = blocks.length
  printed : visitor.node n p =
    p.write (p.style.layout.underFrames frames blocks ++ Text.lines instruction)

namespace LoopOf

variable {n : Node} {blocks : List Block} {instruction : String}

lemma layout_eq (h : LoopOf n blocks instruction) (L : Layout) :
    L.node n = L.underFrames (blocks.map Block.frame) blocks ++ Text.lines instruction := by
  cases h with
  | counted body =>
    simp [Build.counted, RepeatLoop.node, Layout.node, Layout.underFrames, RepeatKind.mnemonic]
  | untilTrue body =>
    simp [Build.untilTrue, RepeatLoop.node, Layout.node, Layout.underFrames, RepeatKind.mnemonic]
  | whileLoop condition body canBreak =>
    simp [Build.whileLoop, WhileLoop.node, Layout.node, Layout.underFrames, whileMnemonic]

/-- The lines tell under which frames the blocks of a loop stand: each under its own. -/
lemma printsUnder_iff (h : LoopOf n blocks instruction) {p : Printer} {frames : List Frame} :
    p.PrintsUnder n frames blocks instruction ↔ frames = blocks.map Block.frame := by
  have hown : Printer.visitor.node n p = p.write
      (p.style.layout.underFrames (blocks.map Block.frame) blocks ++ Text.lines instruction) := by
    rw [Printer.visitor_node, h.layout_eq]
  constructor
  · rintro ⟨hlen, hprinted⟩
    have hlines := p.write_injective (hprinted.symm.trans hown)
    exact (Layout.underFrames_append_inj hlen (List.length_map _) hlines).1
  · rintro rfl
    exact ⟨List.length_map _, hown⟩

/-- Whatever blocks a loop is built from and wherever it is printed, the blocks stand in order under
frames that the lines tell, and the instruction of the loop follows. None of these frames takes a
branch exactly if no block was given to the factory in a frame that does. -/
theorem plain_frames_iff (h : LoopOf n blocks instruction) (p : Printer) :
    (∃! frames, p.PrintsUnder n frames blocks instruction) ∧
    ((∀ frames, p.PrintsUnder n frames blocks instruction →
        ∀ frame ∈ frames, frame.isBranching = false) ↔
      ∀ b ∈ blocks, b.frame.isBranching = false) := by
  constructor
  · exact ⟨blocks.map Block.frame, h.printsUnder_iff.mpr rfl, fun _ => h.printsUnder_iff.mp⟩
  · simp only [h.printsUnder_iff, forall_eq, List.forall_mem_map]

/-- Condition and body stand in their order, each under its own frame. -/
theorem plain_frames_whileLoop :
    LoopOf (Build.whileLoop ⟨.pushCont, [.leaf (.stack .dup2)]⟩
        ⟨.pushRefCont, [.leaf (.stack (.drop 1))]⟩ true).node
      [⟨.pushCont, [.leaf (.stack .dup2)]⟩, ⟨.pushRefCont, [.leaf (.stack (.drop 1))]⟩]
      "WHILEBRK" ∧
    (Printer.start Style.standard).PrintsUnder
      (Build.whileLoop ⟨.pushCont, [.leaf (.stack .dup2)]⟩
        ⟨.pushRefCont, [.leaf (.stack (.drop 1))]⟩ true).node
      [.pushCont, .pushRefCont]
      [⟨.pushCont, [.leaf (.stack .dup2)]⟩, ⟨.pushRefCont, [.leaf (.stack (.drop 1))]⟩]
      "WHILEBRK" ∧
    ∀ frames, (Printer.start Style.standard).PrintsUnder
        (Build.whileLoop ⟨.pushCont, [.leaf (.stack .dup2)]⟩
          ⟨.pushRefCont, [.leaf (.stack (.drop 1))]⟩ true).node
        frames
        [⟨.pushCont, [.leaf (.stack .dup2)]⟩, ⟨.pushRefCont, [.leaf (.stack (.drop 1))]⟩]
        "WHILEBRK" → ∀ frame ∈ frames, frame.isBranching = false := by
  let condition : Block := ⟨.pushCont, [.leaf (.stack .dup2)]⟩
  let body : Block := ⟨.pushRefCont, [.leaf (.stack (.drop 1))]⟩
  have hloop : LoopOf (Build.whileLoop condition body true).node [condition, body] "WHILEBRK" :=
    .whileLoop condition body true
  have hplain : ∀ b ∈ [condition, body], b.frame.isBranching = false :=
    List.forall_mem_cons.mpr ⟨rfl, List.forall_mem_singleton.mpr rfl⟩
  exact ⟨hloop, hloop.printsUnder_iff.mpr rfl,
    (plain_frames_iff hloop (Printer.start Style.standard)).2.mpr hplain⟩

/-- The arm of a branch is taken for the body of a loop and printed under its own frame. -/
theorem referenced_arm_printed_as_body :
    (Build.counted ⟨.ifRef, []⟩).node.print Style.standard = "IFREF \x7b\n\x7d\nREPEAT\n" ∧
    ¬ ∀ n blocks instruction, LoopOf n blocks instruction → ∀ (p : Printer) (frames : List Frame),
      p.PrintsUnder n frames blocks instruction → ∀ frame ∈ frames, frame.isBranching = false := by
  refine ⟨by decide +kernel, fun h => ?_⟩
  have hloop : LoopOf (Build.counted ⟨.ifRef, []⟩).node [⟨.ifRef, []⟩] "REPEAT" :=
    .counted ⟨.ifRef, []⟩
  have hplain := h _ _ _ hloop (Printer.start Style.standard) [.ifRef]
    (hloop.printsUnder_iff.mpr rfl)
  exact absurd (hplain .ifRef List.mem_cons_self) (by decide)

end LoopOf

end TvmAssembly
