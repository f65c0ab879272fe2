import TvmAssembly.Proofs.Layout
import TvmAssembly.Proofs.Rebuilding

/-!
# Polarity of printed branches

A conditional is printed as its arms, each under the token of a frame, and then the instruction of a
kind, or none. `Conditional.PrintedAs` says which frames and which instruction are on paper, and a
reader can tell them from the lines (`Conditional.PrintedAs.unique`). Inversion keeps the frames and
changes the kind, so frame and kind of a conditional may disagree; on paper they never do: the
frames and the instruction take exactly one branch, that of the conditional's kind.
-/

namespace TvmAssembly

/-- The frame itself if it takes no branch, else one that only pushes the referenced code. -/
def Frame.pushing (f : Frame) : Frame :=
  if f.isBranching then .pushRefCont else f

lemma Frame.branch?_pushing (f : Frame) : f.pushing.branch? = none := by
  cases f <;> rfl

lemma Frame.pushing_eq_self {f : Frame} (h : f.branch? = none) : f.pushing = f := by
  simp [pushing, isBranching, h]

lemma Frame.pushing_of_branch? {f : Frame} {k : ConditionalKind} (h : f.branch? = some k) :
    f.pushing = .pushRefCont := by
  simp [pushing, isBranching, h]

lemma Frame.header_inj {f g : Frame} (h : f.token ++ " \x7b" = g.token ++ " \x7b") : f = g := by
  revert h
  cases f <;> cases g <;> decide

/-- The lines of the instruction that takes a branch, if there is one. -/
def ConditionalKind.branchLines (instruction : Option ConditionalKind) : List String :=
  instruction.elim [] fun k => Text.lines k.mnemonic

lemma ConditionalKind.lines_mnemonic_inj {k l : ConditionalKind}
    (h : Text.lines k.mnemonic = Text.lines l.mnemonic) : k = l := by
  revert h
  cases k <;> cases l <;> decide

lemma ConditionalKind.lines_mnemonic_ne_nil (k : ConditionalKind) :
    Text.lines k.mnemonic ≠ [] := by
  cases k <;> decide

lemma ConditionalKind.branchLines_inj {i j : Option ConditionalKind}
    (h : branchLines i = branchLines j) : i = j := by
  cases i with
  | none =>
    cases j with
    | none => rfl
    | some l => exact absurd h.symm l.lines_mnemonic_ne_nil
  | some k =>
    cases j with
    | none => exact absurd h k.lines_mnemonic_ne_nil
    | some l => rw [lines_mnemonic_inj h]

namespace Layout

variable {L : Layout}

/-- The lines of blocks, each under the token of the frame at its place. -/
def underFrames (L : Layout) (frames : List Frame) (blocks : List Block) : List String :=
  (List.zipWith (fun frame b => L.enclosed frame.token (L.inside b)) frames blocks).flatten

lemma underFrames_cons (frame : Frame) (frames : List Frame) (b : Block) (blocks : List Block) :
    L.underFrames (frame :: frames) (b :: blocks) =
      L.enclosed frame.token (L.inside b) ++ L.underFrames frames blocks := rfl

lemma enclosed_token_append_inj {f g : Frame} {code r s : List String}
    (h : L.enclosed f.token code ++ r = L.enclosed g.token code ++ s) : f = g ∧ r = s := by
  simp only [enclosed, Frame.lines_header, List.append_assoc, List.cons_append, List.nil_append,
    List.cons.injEq, List.append_cancel_left_eq, true_and] at h
  exact ⟨Frame.header_inj h.1, h.2⟩

/-- The frames that blocks are printed under can be read off, and so can what follows. -/
lemma underFrames_append_inj {frames frames' : List Frame} {blocks : List Block}
    {r s : List String} (hlen : frames.length = blocks.length)
    (hlen' : frames'.length = blocks.length)
    (h : L.underFrames frames blocks ++ r = L.underFrames frames' blocks ++ s) :
    frames = frames' ∧ r = s := by
  induction blocks generalizing frames frames' with
  | nil =>
    obtain rfl := List.length_eq_zero_iff.mp hlen
    obtain rfl := List.length_eq_zero_iff.mp hlen'
    exact ⟨rfl, h⟩
  | cons b blocks ih =>
    obtain ⟨frame, frames, rfl⟩ := List.exists_cons_of_length_eq_add_one hlen
    obtain ⟨frame', frames', rfl⟩ := List.exists_cons_of_length_eq_add_one hlen'
    rw [underFrames_cons, underFrames_cons, List.append_assoc, List.append_assoc] at h
    obtain ⟨rfl, hrest⟩ := enclosed_token_append_inj h
    obtain ⟨rfl, hrs⟩ := ih (Nat.succ.inj hlen) (Nat.succ.inj hlen') hrest
    exact ⟨rfl, hrs⟩

end Layout

namespace Conditional

/-- On paper the arms stand in order under the frames, and then follows the instruction, if any. -/
structure PrintedAs (c : Conditional) (p : Printer) (frames : List Frame)
    (instruction : Option ConditionalKind) : Prop where
  length_eq : frames.length = c.arms.length
  printed : Printer.visitor.node c.node p =
    p.write (p.style.layout.underFrames frames c.arms ++ ConditionalKind.branchLines instruction)

variable {c : Conditional} {p : Printer}

/-- The lines tell under which frames the arms stand and which instruction follows. -/
lemma PrintedAs.unique {frames frames' : List Frame} {i j : Option ConditionalKind}
    (h : c.PrintedAs p frames i) (h' : c.PrintedAs p frames' j) : frames = frames' ∧ i = j := by
  have hlines := p.write_injective (h.printed.symm.trans h'.printed)
  obtain ⟨hframes, hbranch⟩ := Layout.underFrames_append_inj h.length_eq h'.length_eq hlines
  exact ⟨hframes, ConditionalKind.branchLines_inj hbranch⟩

/-- The frame takes the branch, and nothing follows. -/
lemma printedAs_own_frame (hone : c.falseArm = none)
    (hbranch : c.trueArm.frame.branch? = some c.kind) (p : Printer) :
    c.PrintedAs p [c.trueArm.frame] none := by
  obtain ⟨kind, trueArm, falseArm⟩ := c
  obtain rfl : falseArm = none := hone
  refine ⟨rfl, ?_⟩
  rw [Printer.visitor_node]
  simp [node, Layout.node, show trueArm.frame.branch? = some kind from hbranch, arms,
    Layout.underFrames, ConditionalKind.branchLines]

/-- No frame takes a branch, and the instruction follows. -/
lemma printedAs_pushing (h : c.Sound) (hbranch : c.trueArm.frame.branch? ≠ some c.kind)
    (p : Printer) : c.PrintedAs p (c.arms.map fun arm => arm.frame.pushing) (some c.kind) := by
  refine ⟨by rw [List.length_map], ?_⟩
  rw [Printer.visitor_node]
  obtain ⟨kind, trueArm, falseArm⟩ := c
  cases falseArm with
  | some falseArm =>
    have hnone := h.branch?_eq_none h.isSome_falseArm.symm
    have ht := Frame.pushing_eq_self (hnone trueArm (by simp [arms]))
    have hf := Frame.pushing_eq_self (hnone falseArm (by simp [arms]))
    simp [node, Layout.node, arms, Layout.underFrames, ConditionalKind.branchLines, ht, hf]
  | none =>
    cases hencoded : trueArm.frame.branch? with
    | none =>
      simp [node, Layout.node, arms, Layout.underFrames, ConditionalKind.branchLines, hencoded,
        Frame.pushing_eq_self hencoded]
    | some encoded =>
      have hne : encoded ≠ kind := by
        rintro rfl
        exact hbranch hencoded
      simp [node, Layout.node, arms, Layout.underFrames, ConditionalKind.branchLines, hencoded,
        Frame.pushing_of_branch? hencoded, hne]

/-- What a sound conditional is printed as: under its own frame if that takes its branch, else
under frames that take none and with the instruction of its kind. -/
lemma Sound.printedAs (h : c.Sound) (p : Printer) :
    (c.kind.isTwoArmed = false ∧ c.trueArm.frame.branch? = some c.kind ∧
      c.PrintedAs p [c.trueArm.frame] none) ∨
    c.PrintedAs p (c.arms.map fun arm => arm.frame.pushing) (some c.kind) := by
  by_cases hbranch : c.trueArm.frame.branch? = some c.kind
  · have hone := Frame.isTwoArmed_of_branch?_eq_some hbranch
    exact .inl ⟨hone, hbranch, printedAs_own_frame (h.falseArm_eq_none hone) hbranch p⟩
  · exact .inr (printedAs_pushing h hbranch p)

/-- The branches that frames and instruction take on paper are one, and it is that of the kind. -/
lemma Sound.shown_eq (h : c.Sound) {frames : List Frame} {instruction : Option ConditionalKind}
    (hprinted : c.PrintedAs p frames instruction) :
    frames.filterMap Frame.branch? ++ instruction.toList = [c.kind] := by
  rcases h.printedAs p with ⟨-, hbranch, hown⟩ | hpushing
  · obtain ⟨rfl, rfl⟩ := hprinted.unique hown
    simp [hbranch]
  · obtain ⟨rfl, rfl⟩ := hprinted.unique hpushing
    simp [List.filterMap_map, Frame.branch?_pushing]

/-- A conditional that the factory gave, inverted any number of times, is printed with the branch of
its own kind: either its one arm stands under a frame that takes that branch, and nothing follows,
or its arms stand under frames that take none, and the instruction of the kind follows. However the
lines are read, they take one branch, that of the kind. After an even number of inversions they are
those of the conditional as it was built. -/
theorem printed_branch_eq_kind {kind : ConditionalKind} {trueArm : Block}
    {falseArm : Option Block} {built : Conditional}
    (hbuilt : Build.conditional kind trueArm falseArm = .ok built) (k : ℕ) (p : Printer) :
    let c := invert^[k] built
    ((c.kind.isTwoArmed = false ∧ c.trueArm.frame.branch? = some c.kind ∧
        c.PrintedAs p [c.trueArm.frame] none) ∨
      ((∀ arm ∈ c.arms, arm.frame.pushing.branch? = none) ∧
        c.PrintedAs p (c.arms.map fun arm => arm.frame.pushing) (some c.kind))) ∧
    (∀ frames instruction, c.PrintedAs p frames instruction →
      frames.filterMap Frame.branch? ++ instruction.toList = [c.kind]) ∧
    (Even k → Printer.visitor.node c.node p = Printer.visitor.node built.node p) := by
  intro c
  have hc : c.Sound := (Sound.of_conditional hbuilt).iterate_invert k
  refine ⟨?_, fun frames instruction => hc.shown_eq, fun hk => ?_⟩
  · refine (hc.printedAs p).imp_right fun hpushing => ⟨?_, hpushing⟩
    exact fun arm _ => arm.frame.branch?_pushing
  · have hself : c = built := by
      change invert^[k] built = built
      rw [involutive_invert.iterate_even hk, id]
    rw [hself]

/-- Inverted once, the conditional is printed under another frame than its own; inverted twice, it is
printed as it was built. -/
theorem printed_branch_referenceSample :
    Build.conditional .ifTrue ⟨.ifRef, []⟩ none = .ok referenceSample ∧
    referenceSample.invert.PrintedAs (Printer.start Style.standard) [.pushRefCont]
      (some .ifFalse) ∧
    (∀ frames instruction,
      referenceSample.invert.PrintedAs (Printer.start Style.standard) frames instruction →
        frames.filterMap Frame.branch? ++ instruction.toList = [.ifFalse]) ∧
    Even 2 ∧
    Printer.visitor.node referenceSample.invert.invert.node (Printer.start Style.standard) =
      Printer.visitor.node referenceSample.node (Printer.start Style.standard) := by
  have hbuilt := conditional_referenceSample
  obtain ⟨honce, hread, -⟩ := printed_branch_eq_kind hbuilt 1 (Printer.start Style.standard)
  obtain ⟨-, -, htwice⟩ := printed_branch_eq_kind hbuilt 2 (Printer.start Style.standard)
  refine ⟨hbuilt, ?_, hread, even_two, htwice even_two⟩
  rcases honce with ⟨-, hown, -⟩ | ⟨-, hpushing⟩
  · cases hown
  · exact hpushing

end Conditional

end TvmAssembly
