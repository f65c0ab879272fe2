import TvmAssembly.Proofs.Rebuilding

/-!
# Complements of conditionals

The factory asks of the arms what the kind needs, and of their frames that they take no other
branch. Inversion does not go through the factory: with one arm it changes the kind, with two it
changes the order of the arms. Either way the complement selects under a flag the arm that the
conditional selects under the other one, and what the factory asked still holds, frames of one arm
up to the opposite branch.
-/

namespace TvmAssembly

/-- What a kind asks of the arms of a conditional. -/
structure ConditionalKind.Admits (kind : ConditionalKind) (trueArm : Block)
    (falseArm : Option Block) : Prop where
  falseArm_iff : falseArm.isSome = true ↔ kind.isTwoArmed = true
  two_armed : kind.isTwoArmed = true → trueArm.frame.isBranching = false ∧
    ∀ arm, falseArm = some arm → arm.frame.isBranching = false
  one_armed : kind.isTwoArmed = false → trueArm.frame.isBranching = true →
    trueArm.frame.branch? = some kind

/-- Whether the branch of the true arm is taken on the flag. -/
def ConditionalKind.holdsOn (kind : ConditionalKind) (flag : Bool) : Bool :=
  match kind with
  | ifTrue | jumpIfTrue | ifElse | jumpIfElse => flag
  | ifFalse | jumpIfFalse => !flag

/-- The arm that is run under a flag, if any. -/
def Conditional.selected? (c : Conditional) (flag : Bool) : Option Block :=
  if c.kind.holdsOn flag then some c.trueArm else c.falseArm

lemma Frame.isBranching_eq_false_iff {f : Frame} : f.isBranching = false ↔ f.branch? = none := by
  rw [isBranching, Option.isSome_eq_false_iff, Option.isNone_iff_eq_none]

namespace ConditionalKind

lemma holdsOn_inverse {kind : ConditionalKind} (hone : kind.isTwoArmed = false) (flag : Bool) :
    kind.inverse.holdsOn flag = kind.holdsOn !flag := by
  cases kind <;> simp_all [isTwoArmed, inverse, holdsOn]

lemma holdsOn_of_isTwoArmed {kind : ConditionalKind} (htwo : kind.isTwoArmed = true)
    (flag : Bool) : kind.holdsOn flag = flag := by
  cases kind <;> simp_all [isTwoArmed, holdsOn]

/-- The kind admits the arms iff there are as many as it takes and no frame takes another branch. -/
lemma admits_iff {kind : ConditionalKind} {trueArm : Block} {falseArm : Option Block} :
    kind.Admits trueArm falseArm ↔ falseArm.isSome = kind.isTwoArmed ∧
      ∀ arm ∈ Conditional.arms ⟨kind, trueArm, falseArm⟩, ∀ encoded,
        arm.frame.branch? = some encoded → encoded = kind := by
  constructor
  · intro h
    refine ⟨Bool.eq_iff_iff.mpr h.falseArm_iff, ?_⟩
    intro arm harm encoded he
    have hbranching : arm.frame.isBranching = true := by
      rw [Frame.isBranching, he, Option.isSome_some]
    -- The frame takes a branch, so there is one arm, and the branch is that of the kind.
    by_cases htwo : kind.isTwoArmed = true
    · obtain ⟨ht, hf⟩ := h.two_armed htwo
      have hnot : arm.frame.isBranching = false := by
        rcases List.mem_cons.mp harm with rfl | harm
        · exact ht
        · exact hf arm (Option.mem_toList.mp harm)
      rw [hbranching] at hnot
      cases hnot
    · have hnone : falseArm = none := by
        rw [← Option.not_isSome_iff_eq_none, h.falseArm_iff]
        exact htwo
      obtain rfl : arm = trueArm := by
        rw [hnone] at harm
        exact List.mem_singleton.mp harm
      have hown := h.one_armed (Bool.eq_false_iff.mpr htwo) hbranching
      rw [he] at hown
      exact Option.some.inj hown
  · rintro ⟨hcount, hframes⟩
    -- The branch of a frame has one arm, so under a kind with two no frame takes a branch.
    have hplain : kind.isTwoArmed = true →
        ∀ arm ∈ Conditional.arms ⟨kind, trueArm, falseArm⟩, arm.frame.isBranching = false := by
      intro htwo arm harm
      rw [Frame.isBranching_eq_false_iff]
      apply Frame.branch?_eq_none_of_isTwoArmed
      intro encoded he
      rw [hframes arm harm encoded he, htwo]
    have htrue : trueArm ∈ Conditional.arms ⟨kind, trueArm, falseArm⟩ := List.mem_cons_self
    refine ⟨Bool.eq_iff_iff.mp hcount, fun htwo => ⟨hplain htwo trueArm htrue, ?_⟩, ?_⟩
    · intro arm harm
      exact hplain htwo arm (List.mem_cons_of_mem _ (Option.mem_toList.mpr harm))
    · intro _ hbranching
      obtain ⟨encoded, hencoded⟩ := Option.isSome_iff_exists.mp hbranching
      rw [hencoded, hframes trueArm htrue encoded hencoded]

end ConditionalKind

namespace Conditional

lemma arms_invert (c : Conditional) : c.invert.arms = c.arms.reverse := by
  unfold invert arms
  cases c.falseArm <;> rfl

/-- Under a flag the complement selects what the conditional selects under the other flag. -/
lemma Sound.selected?_invert {c : Conditional} (h : c.Sound) (flag : Bool) :
    c.invert.selected? flag = c.selected? !flag := by
  obtain ⟨kind, trueArm, falseArm⟩ := c
  have hcount : falseArm.isSome = kind.isTwoArmed := h.isSome_falseArm
  cases falseArm with
  | none =>
    have hinvert : (Conditional.mk kind trueArm none).invert = ⟨kind.inverse, trueArm, none⟩ := rfl
    rw [hinvert, selected?, selected?, ConditionalKind.holdsOn_inverse hcount.symm]
  | some arm =>
    have htwo : kind.isTwoArmed = true := hcount.symm
    have hinverse : kind.inverse.isTwoArmed = true := by
      rw [ConditionalKind.isTwoArmed_inverse, htwo]
    have hinvert : (Conditional.mk kind trueArm (some arm)).invert =
        ⟨kind.inverse, arm, some trueArm⟩ := rfl
    rw [hinvert, selected?, selected?, ConditionalKind.holdsOn_of_isTwoArmed htwo,
      ConditionalKind.holdsOn_of_isTwoArmed hinverse]
    cases flag <;> rfl

lemma Sound.branch?_trueArm {c : Conditional} (h : c.Sound) :
    c.trueArm.frame.isBranching = false ∨ c.trueArm.frame.branch? = some c.kind ∨
      c.trueArm.frame.branch? = some c.kind.inverse := by
  cases hbranch : c.trueArm.frame.branch? with
  | none => exact .inl (Frame.isBranching_eq_false_iff.mpr hbranch)
  | some encoded =>
    rcases h.encoded c.trueArm List.mem_cons_self encoded hbranch with rfl | rfl
    · exact .inr (.inl rfl)
    · exact .inr (.inr rfl)

/-- The factory gives a conditional exactly when the kind admits the arms. What comes of it by any
number of inversions has the arms that its kind takes, in frames that take no branch if there are
two, and up to the opposite branch in frames of its own if there is one. Its complement has the same
blocks in the other order and selects them under the other flag, leaves the continuation as it did,
and has it for a complement again. -/
theorem conditional_iff_admits_and_complement :
    (∀ kind trueArm falseArm c, Build.conditional kind trueArm falseArm = .ok c ↔
      c = ⟨kind, trueArm, falseArm⟩ ∧ kind.Admits trueArm falseArm) ∧
    ∀ kind trueArm falseArm built, Build.conditional kind trueArm falseArm = .ok built → ∀ k : ℕ,
      let c := invert^[k] built
      (c.falseArm.isSome = true ↔ c.kind.isTwoArmed = true) ∧
      (c.kind.isTwoArmed = true → ∀ arm ∈ c.arms, arm.frame.isBranching = false) ∧
      (c.kind.isTwoArmed = false → c.trueArm.frame.isBranching = false ∨
        c.trueArm.frame.branch? = some c.kind ∨ c.trueArm.frame.branch? = some c.kind.inverse) ∧
      c.invert.invert = c ∧
      c.invert.arms = c.arms.reverse ∧
      (∀ flag, c.invert.selected? flag = c.selected? !flag) ∧
      c.invert.kind.isJump = c.kind.isJump := by
  constructor
  · intro kind trueArm falseArm c
    rw [Build.conditional_eq_ok_iff, ConditionalKind.admits_iff]
    apply and_congr_right
    rintro rfl
    exact Iff.rfl
  · intro kind trueArm falseArm built hbuilt k c
    have hc : c.Sound := (Sound.of_conditional hbuilt).iterate_invert k
    refine ⟨Bool.eq_iff_iff.mp hc.isSome_falseArm, ?_, fun _ => hc.branch?_trueArm,
      c.invert_invert, c.arms_invert, hc.selected?_invert, ?_⟩
    · intro htwo arm harm
      exact Frame.isBranching_eq_false_iff.mpr (hc.branch?_eq_none htwo arm harm)
    · rw [kind_invert, ConditionalKind.isJump_inverse]

/-- Two arms trade places and keep the kind; one arm stays, in the frame of the opposite branch. -/
theorem complement_samples :
    (Build.conditional .jumpIfElse ⟨.callX, []⟩ (some ⟨.pushRefCont, []⟩) =
        .ok ⟨.jumpIfElse, ⟨.callX, []⟩, some ⟨.pushRefCont, []⟩⟩ ∧
      ConditionalKind.jumpIfElse.Admits ⟨.callX, []⟩ (some ⟨.pushRefCont, []⟩) ∧
      ∀ flag, (invert ⟨.jumpIfElse, ⟨.callX, []⟩, some ⟨.pushRefCont, []⟩⟩).selected? flag =
        selected? ⟨.jumpIfElse, ⟨.callX, []⟩, some ⟨.pushRefCont, []⟩⟩ !flag) ∧
    (Build.conditional .ifTrue ⟨.ifRef, []⟩ none = .ok referenceSample ∧
      referenceSample.invert.kind.isTwoArmed = false ∧
      (referenceSample.invert.trueArm.frame.isBranching = false ∨
        referenceSample.invert.trueArm.frame.branch? = some .ifFalse ∨
        referenceSample.invert.trueArm.frame.branch? = some .ifTrue) ∧
      ∀ flag, referenceSample.invert.invert.selected? flag =
        referenceSample.invert.selected? !flag) := by
  have htwo : Build.conditional .jumpIfElse ⟨.callX, []⟩ (some ⟨.pushRefCont, []⟩) =
      .ok ⟨.jumpIfElse, ⟨.callX, []⟩, some ⟨.pushRefCont, []⟩⟩ := rfl
  have hadmits := ((conditional_iff_admits_and_complement.1 _ _ _ _).mp htwo).2
  obtain ⟨-, -, -, -, -, hselected, -⟩ :=
    conditional_iff_admits_and_complement.2 _ _ _ _ htwo 0
  obtain ⟨-, -, hframe, -, -, hother, -⟩ :=
    conditional_iff_admits_and_complement.2 _ _ _ _ conditional_referenceSample 1
  exact ⟨⟨htwo, hadmits, hselected⟩, conditional_referenceSample, rfl, hframe rfl, hother⟩

end Conditional

end TvmAssembly
