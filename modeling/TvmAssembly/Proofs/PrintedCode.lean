import TvmAssembly.Proofs.ContentIdentity
import TvmAssembly.Proofs.Layout

/-!
# Printing code alone

In a style without comments and locations a tree is printed as its unannotated form is. So the
printed text is a function of what a content identity covers: blocks that are written down alike for
their identity are printed alike, and so are functions of one name.
-/

namespace TvmAssembly

/-- A layout that shows the code of a leaf and nothing else of it. -/
structure Layout.Bare (L : Layout) : Prop where
  location : ∀ l, L.leaf (.location l) = []
  unannotated : ∀ l : Leaf, L.leaf l.unannotated = L.leaf l

lemma Style.bare_layout {style : Style} (hcomments : style.comments = false)
    (hlocations : style.locations = false) : style.layout.Bare where
  location l := by simp [layout, leafLines, hlocations]
  unannotated l := by
    have hcode (m : Mnemonic) : style.mnemonicLines m.withoutComment = style.mnemonicLines m := by
      simp [mnemonicLines, hcomments, Mnemonic.code, Mnemonic.withoutComment]
    cases l with
    | instruction i => exact hcode i.line
    | exit e => exact hcode e.line
    | _ => rfl

lemma Block.frame_unannotated (b : Block) : b.unannotated.frame = b.frame := by
  obtain ⟨frame, body⟩ := b
  rw [Block.unannotated]

namespace Layout.Bare

variable {L : Layout}

lemma node_of_isLocation (h : L.Bare) {n : Node} (hn : n.isLocation = true) : L.node n = [] := by
  cases n with
  | leaf l =>
    cases l with
    | location l => exact h.location l
    | _ => cases hn
  | _ => cases hn

mutual

theorem node_unannotated (h : L.Bare) : (n : Node) → L.node n.unannotated = L.node n
  | .leaf l => h.unannotated l
  | .sealed b _ => by
    rw [Node.unannotated, node, node, b.frame_unannotated, inside_unannotated h b]
  | .data _ _ c => by
    rw [Node.unannotated, node, node, insideChild_unannotated h c]
  | .block b => by
    rw [Node.unannotated, node, node, b.frame_unannotated, inside_unannotated h b]
  | .conditional _ t (some f) => by
    rw [Node.unannotated, unannotatedChild, node, node, t.frame_unannotated,
      inside_unannotated h t, f.frame_unannotated, inside_unannotated h f]
  | .conditional _ t none => by
    rw [Node.unannotated, unannotatedChild, node, node, t.frame_unannotated,
      inside_unannotated h t]
  | .repeatLoop _ b => by
    rw [Node.unannotated, node, node, b.frame_unannotated, inside_unannotated h b]
  | .whileLoop c b _ => by
    rw [Node.unannotated, node, node, c.frame_unannotated, inside_unannotated h c,
      b.frame_unannotated, inside_unannotated h b]
  termination_by structural n => n

theorem inside_unannotated (h : L.Bare) : (b : Block) → L.inside b.unannotated = L.inside b
  | ⟨_, ns⟩ => nodes_unannotated h ns
  termination_by structural b => b

theorem insideChild_unannotated (h : L.Bare) :
    (c : Option Block) → L.insideChild (unannotatedChild c) = L.insideChild c
  | none => rfl
  | some b => inside_unannotated h b
  termination_by structural c => c

theorem nodes_unannotated (h : L.Bare) :
    (ns : List Node) → L.nodes (unannotatedBody ns) = L.nodes ns
  | [] => rfl
  | n :: ns => by
    rw [unannotatedBody_cons]
    split
    · next hn => rw [nodes_unannotated h ns, nodes, h.node_of_isLocation hn, List.nil_append]
    · rw [nodes, nodes, node_unannotated h n, nodes_unannotated h ns]
  termination_by structural ns => ns

end

lemma inside_eq_of_unannotated_eq (h : L.Bare) {a b : Block}
    (hab : a.unannotated = b.unannotated) : L.inside a = L.inside b := by
  rw [← h.inside_unannotated a, hab, h.inside_unannotated b]

lemma block_eq_of_unannotated_eq (h : L.Bare) {a b : Block}
    (hab : a.unannotated = b.unannotated) : L.block a = L.block b := by
  have hframe : a.frame = b.frame := by
    rw [← a.frame_unannotated, hab, b.frame_unannotated]
  rw [block, block, hframe, h.inside_eq_of_unannotated_eq hab]

end Layout.Bare

namespace Identity

/-- What a content identity covers decides the printed code: in a style without comments and
locations, blocks that are written down alike have one text, and so have functions of one name. -/
theorem print_eq_of_preimage_eq :
    (∀ a b : Block, a.Built → b.Built → a.Fits → b.Fits → blockPreimage a = blockPreimage b →
      ∀ style : Style, style.comments = false → style.locations = false →
        a.print style = b.print style) ∧
    ∀ f g : Function, f.Built → g.Built → f.block.Fits → g.block.Fits →
      functionPreimage f = functionPreimage g → f.name = g.name →
      ∀ style : Style, style.comments = false → style.locations = false →
        f.print style = g.print style := by
  constructor
  · intro a b ha hb fa fb hpreimage style hcomments hlocations
    rw [blockPreimage_eq_marks, blockPreimage_eq_marks, List.cons_inj_right] at hpreimage
    have hcode : a.unannotated = b.unannotated :=
      (blockMarks_eq_iff (readable_of_built ha fa) (readable_of_built hb fb)).mp hpreimage
    have hbare : style.layout.Bare := Style.bare_layout hcomments hlocations
    rw [Block.print, Block.print, Printer.print_block, Printer.print_block]
    exact congrArg (fun lines => ((Printer.start style).write lines).finish)
      (hbare.block_eq_of_unannotated_eq hcode)
  · intro f g hf hg ff fg hpreimage hname style hcomments hlocations
    obtain ⟨hkind, -, hcode⟩ := (functionPreimage_eq_iff (readable_of_built hf.built_block ff)
      (readable_of_built hg.built_block fg)).mp hpreimage
    have hbare : style.layout.Bare := Style.bare_layout hcomments hlocations
    have hhead : (Printer.start style).functionHead f = (Printer.start style).functionHead g :=
      Printer.functionHead_congr _ hkind hname
    have hstyle : ((Printer.start style).functionHead g).style = style :=
      Printer.style_functionHead _ g
    rw [Function.print, Function.print, Printer.print_function, Printer.print_function, hhead,
      hstyle, hbare.inside_eq_of_unannotated_eq hcode]

/-- The annotated function under the name of the plain one. -/
def renamedFunction : Function := { annotatedFunction with name := plainFunction.name }

lemma built_renamedFunction : renamedFunction.Built :=
  @Function.Built.function "plus" _ _ _ _ built_annotatedSample rfl

theorem print_annotatedSample :
    (annotatedSample.Built ∧ plainSample.Built ∧ annotatedSample.Fits ∧ plainSample.Fits ∧
      blockPreimage annotatedSample = blockPreimage plainSample ∧
      annotatedSample.print ⟨"  ", false, false⟩ = plainSample.print ⟨"  ", false, false⟩) ∧
    (renamedFunction.Built ∧ plainFunction.Built ∧
      functionPreimage renamedFunction = functionPreimage plainFunction ∧
      renamedFunction.name = plainFunction.name ∧
      renamedFunction.print ⟨"  ", false, false⟩ = plainFunction.print ⟨"  ", false, false⟩) := by
  have hblock : blockPreimage annotatedSample = blockPreimage plainSample := by decide +kernel
  have hfunction : functionPreimage renamedFunction = functionPreimage plainFunction := by
    decide +kernel
  refine ⟨⟨built_annotatedSample, built_plainSample, fits_annotatedSample, fits_plainSample, hblock,
    ?_⟩, ⟨built_renamedFunction, built_plainFunction, hfunction, rfl, ?_⟩⟩
  · exact print_eq_of_preimage_eq.1 _ _ built_annotatedSample built_plainSample
      fits_annotatedSample fits_plainSample hblock _ rfl rfl
  · exact print_eq_of_preimage_eq.2 _ _ built_renamedFunction built_plainFunction
      fits_annotatedSample fits_plainSample hfunction rfl _ rfl rfl

end Identity

end TvmAssembly
