import Mathlib.Data.Nat.Basic
import TvmAssembly.Proofs.StackActions
import TvmAssembly.Proofs.StackOperands

/-!
# Spellings of stack instructions

Two stack instructions can do the same: an exchange of the top with a slot is also an exchange of
two slots, and to turn round two values is to exchange them. `StackOp.canonical` chooses one of the
spellings of each action, and there it ends: instructions that the factories give act alike just in
case the same spelling is chosen for them (`StackOp.actsLike_iff_canonical_eq`).
-/

namespace TvmAssembly

namespace Stack

lemma iterate_pushSource_two (i p : ℕ) :
    (pushSource i)^[2] p = pushSource i (pushSource (i - 1 + 1) p) := by
  cases p with
  | zero => cases i <;> rfl
  | succ p => rfl

lemma iterate_pushSource_three (i p : ℕ) :
    (pushSource i)^[3] p = pushSource i
      (pushSource (i - 1 + 1) (pushSource ((if i ≤ 1 then i else i - 2) + 2) p)) := by
  match p, i with
  | 0, 0 | 0, 1 | 0, _ + 2 | 1, 0 | 1, _ + 1 | _ + 2, _ => rfl

lemma exchangeSource_self (i p : ℕ) : exchangeSource i i p = p := by
  rw [exchangeSource]
  split_ifs <;> omega

lemma exchangeSource_comm (i j p : ℕ) : exchangeSource i j p = exchangeSource j i p := by
  rw [exchangeSource, exchangeSource]
  split_ifs <;> omega

lemma reverseSource_of_le_one {n : ℕ} (h : n ≤ 1) (i p : ℕ) : reverseSource n i p = p := by
  rw [reverseSource]
  split <;> omega

lemma reverseSource_two (i p : ℕ) : reverseSource 2 i p = exchangeSource i (i + 1) p := by
  rw [reverseSource, exchangeSource]
  split_ifs <;> omega

lemma reverseSource_three (i p : ℕ) : reverseSource 3 i p = exchangeSource i (i + 2) p := by
  rw [reverseSource, exchangeSource]
  split_ifs <;> omega

end Stack

namespace StackOp

/-- The spelling that is chosen for what an instruction does. Two or three values that are pushed
are named one by one, and values that trade places are exchanged, the upper slot first. -/
def canonical : StackOp → StackOp
  | pushBlock n i =>
    if n = 2 then push2 i (if i = 0 then 0 else i - 1)
    else if n = 3 then push3 i (if i = 0 then 0 else i - 1) (if i ≤ 1 then i else i - 2)
    else pushBlock n i
  | dup2 => push2 1 0
  | over2 => push2 3 2
  | swapTop i => swap 0 i
  | swap i j => if i = j then swap 0 0 else if i < j then swap i j else swap j i
  | dropBelow n k => if k = 0 then drop n else dropBelow n k
  | reverse n i =>
    if n ≤ 1 then swap 0 0
    else if n = 2 ∧ i ≤ 254 then swap i (i + 1)
    else if n = 3 ∧ i ≤ 253 then swap i (i + 2)
    else reverse n i
  | op => op

lemma canonical_pushBlock (n i : UInt8) : (pushBlock n i).canonical =
    if n = 2 then push2 i (if i = 0 then 0 else i - 1)
    else if n = 3 then push3 i (if i = 0 then 0 else i - 1) (if i ≤ 1 then i else i - 2)
    else pushBlock n i := rfl

lemma canonical_swap (i j : UInt8) : (swap i j).canonical =
    if i = j then swap 0 0 else if i < j then swap i j else swap j i := rfl

lemma canonical_dropBelow (n k : UInt8) : (dropBelow n k).canonical =
    if k = 0 then drop n else dropBelow n k := rfl

lemma canonical_reverse (n i : UInt8) : (reverse n i).canonical =
    if n ≤ 1 then swap 0 0
    else if n = 2 ∧ i ≤ 254 then swap i (i + 1)
    else if n = 3 ∧ i ≤ 253 then swap i (i + 2)
    else reverse n i := rfl

/-- The instruction is spelled as it is chosen to be. -/
def IsCanonical : StackOp → Prop
  | drop n => 1 ≤ n.toNat
  | pop i => 1 ≤ i.toNat
  | pushBlock n _ => 4 ≤ n.toNat
  | swap i j => i.toNat < j.toNat ∨ i.toNat = 0 ∧ j.toNat = 0
  | dropBelow n k => 1 ≤ n.toNat ∧ 1 ≤ k.toNat ∧ ¬(n.toNat = 1 ∧ k.toNat = 1)
  | reverse n i =>
    2 ≤ n.toNat ∧ (n.toNat = 2 → i.toNat = 255) ∧ (n.toNat = 3 → 254 ≤ i.toNat)
  | push _ | push2 _ _ | push3 _ _ _ | rot | rotBack => True
  | dup2 | over2 | swapTop _ => False

/-- Instructions that move values alike change the height alike. -/
lemma delta_eq_of_source_eq {a b : StackOp} (h : a.source = b.source) :
    a.effect.delta = b.effect.delta := by
  let p := a.depth + a.effect.ret.toNat + b.depth + b.effect.ret.toNat
  have ha : a.source p + a.effect.ret.toNat = p + a.effect.take.toNat :=
    a.source_add_ret (by omega)
  have hb : b.source p + b.effect.ret.toNat = p + b.effect.take.toNat :=
    b.source_add_ret (by omega)
  rw [h] at ha
  simp only [StackEffect.delta]
  omega

lemma toNat_add_of_le {i m k : UInt8} (h : i ≤ m) (hm : m.toNat + k.toNat < 256) :
    (i + k).toNat = i.toNat + k.toNat := by
  rw [UInt8.le_iff_toNat_le] at h
  rw [UInt8.toNat_add]
  omega

/-- The second of the values that are pushed from slot `i`. -/
lemma toNat_second (i : UInt8) : (if i = 0 then 0 else i - 1).toNat = i.toNat - 1 := by
  split
  · next h => rw [h]; rfl
  · next h =>
    rw [← UInt8.toNat_inj] at h
    have hone : (1 : UInt8) ≤ i := by
      rw [UInt8.le_iff_toNat_le]
      exact Nat.one_le_iff_ne_zero.mpr h
    exact UInt8.toNat_sub_of_le _ _ hone

lemma toNat_third (i : UInt8) :
    (if i ≤ 1 then i else i - 2).toNat = if i.toNat ≤ 1 then i.toNat else i.toNat - 2 := by
  have hiff : i ≤ 1 ↔ i.toNat ≤ 1 := UInt8.le_iff_toNat_le
  by_cases h : i ≤ 1
  · rw [if_pos h, if_pos (hiff.mp h)]
  · have htwo : (2 : UInt8) ≤ i := by
      rw [hiff] at h
      rw [UInt8.le_iff_toNat_le]
      exact Nat.lt_of_not_le h
    rw [if_neg h, if_neg (hiff.not.mp h)]
    exact UInt8.toNat_sub_of_le _ _ htwo

lemma source_canonical {op : StackOp} (h : op.Encodable) : op.canonical.source = op.source := by
  cases op with
  | pushBlock n i =>
    funext p
    rw [canonical_pushBlock]
    split
    · next hn =>
      simp only [hn, source, toNat_second]
      exact (Stack.iterate_pushSource_two i.toNat p).symm
    · split
      · next hn =>
        simp only [hn, source, toNat_second, toNat_third]
        exact (Stack.iterate_pushSource_three i.toNat p).symm
      · rfl
  | dup2 => rfl
  | over2 => rfl
  | swapTop i => rfl
  | swap i j =>
    funext p
    rw [canonical_swap]
    split
    · next hij =>
      rw [hij, source, source, Stack.exchangeSource_self, Stack.exchangeSource_self]
    · split
      · rfl
      · exact Stack.exchangeSource_comm _ _ p
  | dropBelow n k =>
    funext p
    rw [canonical_dropBelow]
    split
    · next hk =>
      rw [hk]
      simp [source, Nat.add_comm]
    · rfl
  | reverse n i =>
    funext p
    rw [canonical_reverse]
    split
    · next hn =>
      rw [UInt8.le_iff_toNat_le] at hn
      rw [source, source, Stack.exchangeSource_self, Stack.reverseSource_of_le_one hn]
    · split
      · next hn =>
        rw [source, toNat_add_of_le hn.2 (by decide), source, hn.1]
        exact (Stack.reverseSource_two i.toNat p).symm
      · split
        · next hn =>
          rw [source, toNat_add_of_le hn.2 (by decide), source, hn.1]
          exact (Stack.reverseSource_three i.toNat p).symm
        · rfl
  | _ => rfl

lemma isCanonical_canonical {op : StackOp} (h : op.Encodable) : op.canonical.IsCanonical := by
  cases op with
  | drop n => exact h
  | pop i => exact h
  | pushBlock n i =>
    rw [canonical_pushBlock]
    split
    · trivial
    · next htwo =>
      split
      · trivial
      · next hthree =>
        rw [← UInt8.toNat_inj] at htwo hthree
        have hn : 2 ≤ n.toNat := h.1
        have htwo : n.toNat ≠ 2 := htwo
        have hthree : n.toNat ≠ 3 := hthree
        change 4 ≤ n.toNat
        omega
  | swapTop i => exact .inl h
  | swap i j =>
    rw [canonical_swap]
    split
    · exact .inr ⟨rfl, rfl⟩
    · next hne =>
      rw [← UInt8.toNat_inj] at hne
      split
      · next hlt => exact .inl (UInt8.lt_iff_toNat_lt.mp hlt)
      · next hlt =>
        rw [UInt8.lt_iff_toNat_lt] at hlt
        refine .inl ?_
        omega
  | dropBelow n k =>
    rw [canonical_dropBelow]
    split
    · exact h.1
    · next hk =>
      rw [← UInt8.toNat_inj] at hk
      exact ⟨h.1, Nat.one_le_iff_ne_zero.mpr hk, h.2.2.2⟩
  | reverse n i =>
    have hi := i.toNat_lt
    rw [canonical_reverse]
    split
    · exact .inr ⟨rfl, rfl⟩
    · next hn =>
      split
      · next htwo =>
        refine .inl ?_
        rw [toNat_add_of_le htwo.2 (by decide)]
        exact Nat.lt_succ_self _
      · next htwo =>
        split
        · next hthree =>
          refine .inl ?_
          rw [toNat_add_of_le hthree.2 (by decide)]
          exact Nat.lt_add_of_pos_right (by decide)
        · next hthree =>
          rw [UInt8.le_iff_toNat_le] at hn
          rw [← UInt8.toNat_inj, UInt8.le_iff_toNat_le] at htwo hthree
          simp only [UInt8.reduceToNat] at hn htwo hthree
          refine ⟨?_, ?_, ?_⟩ <;> omega
  | push | push2 | push3 | dup2 | over2 | rot | rotBack => trivial

/-- The chosen spelling is one that the factories give. -/
lemma encodable_canonical {op : StackOp} (h : op.Encodable) : op.canonical.Encodable := by
  cases op with
  | pushBlock n i =>
    have hi : i.toNat ≤ 15 := h.2.2
    have hsecond := toNat_second i
    have hthird := toNat_third i
    rw [canonical_pushBlock]
    split
    · refine ⟨hi, ?_⟩
      omega
    · split
      · refine ⟨hi, ?_, ?_⟩
        · omega
        · rw [hthird]
          split <;> omega
      · exact h
  | dup2 => exact ⟨by decide, by decide⟩
  | over2 => exact ⟨by decide, by decide⟩
  | swapTop i => trivial
  | swap i j =>
    rw [canonical_swap]
    split_ifs <;> trivial
  | dropBelow n k =>
    rw [canonical_dropBelow]
    split
    · exact h.1
    · exact h
  | reverse n i =>
    rw [canonical_reverse]
    split_ifs <;> trivial
  | _ => exact h

/-! ## The chosen spellings do different things -/

variable {a b : StackOp}

lemma delta_dropBelow (n k : UInt8) : (dropBelow n k).effect.delta = -(n.toNat : Int) := by
  simp only [effect, StackEffect.delta, toNat_add_toUInt32, UInt8.toNat_toUInt32]
  omega

lemma delta_pop (i : UInt8) : (pop i).effect.delta = -1 := rfl

lemma eq_drop_or_pop_or_dropBelow (h : a.effect.delta < 0) :
    (∃ n, a = drop n) ∨ (∃ i, a = pop i) ∨ ∃ n k, a = dropBelow n k := by
  cases a with
  | drop n => exact .inl ⟨n, rfl⟩
  | pop i => exact .inr (.inl ⟨i, rfl⟩)
  | dropBelow n k => exact .inr (.inr ⟨n, k, rfl⟩)
  | _ => simp [effect, StackEffect.delta, StackEffect.none] at h <;> omega

lemma drop_eq_of_source_eq {n m : UInt8} (h : (drop n).source = (drop m).source) :
    drop n = drop m := by
  have htop : n.toNat + 0 = m.toNat + 0 := congrFun h 0
  rw [UInt8.toNat_inj.mp htop]

/-- The place that a pop writes to is the only one that has the top. -/
lemma pop_eq_of_source_eq {i j : UInt8} (hi : (pop i).IsCanonical)
    (h : (pop i).source = (pop j).source) : pop i = pop j := by
  have hi : 1 ≤ i.toNat := hi
  have hplace := congrFun h (i.toNat - 1)
  simp only [source] at hplace
  have hij : i.toNat = j.toNat := by grind
  rw [UInt8.toNat_inj.mp hij]

/-- What is kept on top stays in place, and the value below it does not. -/
lemma dropBelow_eq_of_source_eq {n k m l : UInt8} (ha : (dropBelow n k).IsCanonical)
    (h : (dropBelow n k).source = (dropBelow m l).source) : dropBelow n k = dropBelow m l := by
  have hdelta := delta_eq_of_source_eq h
  rw [delta_dropBelow, delta_dropBelow] at hdelta
  have hplace := congrFun h k.toNat
  have hplace' := congrFun h l.toNat
  simp only [IsCanonical, source] at ha hplace hplace'
  have hnm : n.toNat = m.toNat := by omega
  have hkl : k.toNat = l.toNat := by grind
  rw [UInt8.toNat_inj.mp hnm, UInt8.toNat_inj.mp hkl]

/-- A drop removes the top, a pop keeps it somewhere. -/
lemma source_drop_ne_source_pop {n i : UInt8} (ha : (drop n).IsCanonical)
    (hb : (pop i).IsCanonical) : (drop n).source ≠ (pop i).source := by
  intro h
  have hplace := congrFun h (i.toNat - 1)
  simp only [IsCanonical, source] at ha hb hplace
  grind

lemma source_drop_ne_source_dropBelow {n m k : UInt8} (ha : (drop n).IsCanonical)
    (hb : (dropBelow m k).IsCanonical) : (drop n).source ≠ (dropBelow m k).source := by
  intro h
  have hplace := congrFun h 0
  simp only [IsCanonical, source] at ha hb hplace
  grind

/-- Both can remove the one value below the top, but then the pop is the spelling that is chosen. -/
lemma source_pop_ne_source_dropBelow {i n k : UInt8} (ha : (pop i).IsCanonical)
    (hb : (dropBelow n k).IsCanonical) : (pop i).source ≠ (dropBelow n k).source := by
  intro h
  have hdelta := delta_eq_of_source_eq h
  rw [delta_pop, delta_dropBelow] at hdelta
  have hplace := congrFun h (i.toNat - 1)
  have hnext := congrFun h 1
  simp only [IsCanonical, source] at ha hb hplace hnext
  grind

/-- An instruction that removes values is known by its sources. -/
lemma eq_of_source_eq_of_neg (ha : a.IsCanonical) (hb : b.IsCanonical) (h : a.source = b.source)
    (hneg : a.effect.delta < 0) : a = b := by
  have hneg' : b.effect.delta < 0 := delta_eq_of_source_eq h ▸ hneg
  rcases eq_drop_or_pop_or_dropBelow hneg with ⟨n, rfl⟩ | ⟨i, rfl⟩ | ⟨n, k, rfl⟩ <;>
    rcases eq_drop_or_pop_or_dropBelow hneg' with ⟨m, rfl⟩ | ⟨j, rfl⟩ | ⟨m, l, rfl⟩
  · exact drop_eq_of_source_eq h
  · exact absurd h (source_drop_ne_source_pop ha hb)
  · exact absurd h (source_drop_ne_source_dropBelow ha hb)
  · exact absurd h.symm (source_drop_ne_source_pop hb ha)
  · exact pop_eq_of_source_eq ha h
  · exact absurd h (source_pop_ne_source_dropBelow ha hb)
  · exact absurd h.symm (source_drop_ne_source_dropBelow hb ha)
  · exact absurd h.symm (source_pop_ne_source_dropBelow hb ha)
  · exact dropBelow_eq_of_source_eq ha h

lemma eq_push_of_delta_pos (ha : a.IsCanonical) (h : 0 < a.effect.delta) :
    (∃ i, a = push i) ∨ (∃ i j, a = push2 i j) ∨ (∃ i j k, a = push3 i j k) ∨
      ∃ n i, a = pushBlock n i ∧ 4 ≤ n.toNat := by
  cases a with
  | push i => exact .inl ⟨i, rfl⟩
  | push2 i j => exact .inr (.inl ⟨i, j, rfl⟩)
  | push3 i j k => exact .inr (.inr (.inl ⟨i, j, k, rfl⟩))
  | pushBlock n i => exact .inr (.inr (.inr ⟨n, i, rfl, ha⟩))
  | dup2 | over2 => exact ha.elim
  | dropBelow n k =>
    rw [delta_dropBelow] at h
    omega
  | drop n =>
    simp [effect, StackEffect.delta] at h
    omega
  | _ => simp [effect, StackEffect.delta, StackEffect.none] at h

/-- An instruction that only adds values is known by their number and their sources. -/
lemma eq_of_source_eq_of_pos (ha : a.IsCanonical) (hb : b.IsCanonical) (h : a.source = b.source)
    (hpos : 0 < a.effect.delta) : a = b := by
  have hdelta := delta_eq_of_source_eq h
  have hat := congrFun h
  have hpos' : 0 < b.effect.delta := hdelta ▸ hpos
  rcases eq_push_of_delta_pos ha hpos with
      ⟨i, rfl⟩ | ⟨i, j, rfl⟩ | ⟨i, j, k, rfl⟩ | ⟨n, i, rfl, hn⟩ <;>
    rcases eq_push_of_delta_pos hb hpos' with
      ⟨i', rfl⟩ | ⟨i', j', rfl⟩ | ⟨i', j', k', rfl⟩ | ⟨n', i', rfl, hn'⟩ <;>
    simp [effect, StackEffect.delta] at hdelta
  · rw [UInt8.toNat_inj.mp (hat 0)]
  · omega
  · have hfirst : i.toNat = i'.toNat := hat 1
    have hsecond : j.toNat = j'.toNat := hat 0
    rw [UInt8.toNat_inj.mp hfirst, UInt8.toNat_inj.mp hsecond]
  · omega
  · have hfirst : i.toNat = i'.toNat := hat 2
    have hsecond : j.toNat = j'.toNat := hat 1
    have hthird : k.toNat = k'.toNat := hat 0
    rw [UInt8.toNat_inj.mp hfirst, UInt8.toNat_inj.mp hsecond, UInt8.toNat_inj.mp hthird]
  · omega
  · omega
  · omega
  · omega
  · obtain rfl : n = n' := UInt8.toNat_inj.mp (by omega)
    obtain ⟨c, hc⟩ := Nat.exists_eq_add_of_le' (show 1 ≤ n.toNat by omega)
    have hslot := hat c
    rw [source, source, hc, Stack.iterate_pushSource_self, Stack.iterate_pushSource_self] at hslot
    rw [UInt8.toNat_inj.mp hslot]

lemma eq_swap_of_delta_zero (ha : a.IsCanonical) (h : a.effect.delta = 0) :
    (∃ i j, a = swap i j) ∨ (∃ n i, a = reverse n i) ∨ a = rot ∨ a = rotBack := by
  cases a with
  | swap i j => exact .inl ⟨i, j, rfl⟩
  | reverse n i => exact .inr (.inl ⟨n, i, rfl⟩)
  | rot => exact .inr (.inr (.inl rfl))
  | rotBack => exact .inr (.inr (.inr rfl))
  | swapTop i => exact ha.elim
  | dropBelow n k =>
    rw [delta_dropBelow] at h
    have hn : 1 ≤ n.toNat := ha.1
    omega
  | drop n =>
    have hn : 1 ≤ n.toNat := ha
    simp [effect, StackEffect.delta] at h
    omega
  | pushBlock n i =>
    have hn : 4 ≤ n.toNat := ha
    simp [effect, StackEffect.delta] at h
    omega
  | _ => simp [effect, StackEffect.delta] at h

/-- An exchange is known by the first slot that it moves and the one it moves there. -/
lemma swap_eq_of_source_eq {i j k l : UInt8} (ha : (swap i j).IsCanonical)
    (hb : (swap k l).IsCanonical) (h : (swap i j).source = (swap k l).source) :
    swap i j = swap k l := by
  have hfirst := congrFun h i.toNat
  have hfirst' := congrFun h k.toNat
  simp only [IsCanonical, source, Stack.exchangeSource] at ha hb hfirst hfirst'
  have hik : i.toNat = k.toNat := by grind
  have hjl : j.toNat = l.toNat := by grind
  rw [UInt8.toNat_inj.mp hik, UInt8.toNat_inj.mp hjl]

lemma reverse_eq_of_source_eq {n i m k : UInt8} (ha : (reverse n i).IsCanonical)
    (hb : (reverse m k).IsCanonical) (h : (reverse n i).source = (reverse m k).source) :
    reverse n i = reverse m k := by
  have hfirst := congrFun h i.toNat
  have hfirst' := congrFun h k.toNat
  simp only [IsCanonical, source, Stack.reverseSource] at ha hb hfirst hfirst'
  have hik : i.toNat = k.toNat := by grind
  have hnm : n.toNat = m.toNat := by grind
  rw [UInt8.toNat_inj.mp hik, UInt8.toNat_inj.mp hnm]

/-- An exchange keeps what lies between the slots; a turn of more than three values moves the value
next to the first, and one of fewer is spelled as an exchange unless the second slot is too deep. -/
lemma source_swap_ne_source_reverse {i j n k : UInt8} (ha : (swap i j).IsCanonical)
    (hb : (reverse n k).IsCanonical) : (swap i j).source ≠ (reverse n k).source := by
  intro h
  have hfirst := congrFun h k.toNat
  have hnext := congrFun h (k.toNat + 1)
  simp only [IsCanonical, source, Stack.exchangeSource, Stack.reverseSource] at ha hb hfirst hnext
  have hj := j.toNat_lt
  grind

/-- An exchange of the top with the third value brings the top there, a rotation the second one. -/
lemma source_swap_ne_source_rot {i j : UInt8} (ha : (swap i j).IsCanonical) :
    (swap i j).source ≠ rot.source := by
  intro h
  have htop : (swap i j).source 0 = 2 := congrFun h 0
  have hnext : (swap i j).source 1 = 0 := congrFun h 1
  simp only [IsCanonical, source, Stack.exchangeSource] at ha htop hnext
  grind

lemma source_swap_ne_source_rotBack {i j : UInt8} (ha : (swap i j).IsCanonical) :
    (swap i j).source ≠ rotBack.source := by
  intro h
  have htop : (swap i j).source 0 = 1 := congrFun h 0
  have hnext : (swap i j).source 1 = 2 := congrFun h 1
  simp only [IsCanonical, source, Stack.exchangeSource] at ha htop hnext
  grind

/-- A turn of the top three values is spelled as an exchange. -/
lemma source_reverse_ne_source_rot {n i : UInt8} (ha : (reverse n i).IsCanonical) :
    (reverse n i).source ≠ rot.source := by
  intro h
  have htop : (reverse n i).source 0 = 2 := congrFun h 0
  simp only [IsCanonical, source, Stack.reverseSource] at ha htop
  grind

lemma source_reverse_ne_source_rotBack {n i : UInt8} (ha : (reverse n i).IsCanonical) :
    (reverse n i).source ≠ rotBack.source := by
  intro h
  have htop : (reverse n i).source 0 = 1 := congrFun h 0
  simp only [IsCanonical, source, Stack.reverseSource] at ha htop
  grind

lemma source_rot_ne_source_rotBack : rot.source ≠ rotBack.source :=
  fun h => absurd (congrFun h 0) (by decide)

/-- An instruction that only moves values is known by its sources. -/
lemma eq_of_source_eq_of_zero (ha : a.IsCanonical) (hb : b.IsCanonical) (h : a.source = b.source)
    (hzero : a.effect.delta = 0) : a = b := by
  have hzero' : b.effect.delta = 0 := delta_eq_of_source_eq h ▸ hzero
  rcases eq_swap_of_delta_zero ha hzero with ⟨i, j, rfl⟩ | ⟨n, i, rfl⟩ | rfl | rfl <;>
    rcases eq_swap_of_delta_zero hb hzero' with ⟨k, l, rfl⟩ | ⟨m, k, rfl⟩ | rfl | rfl
  · exact swap_eq_of_source_eq ha hb h
  · exact absurd h (source_swap_ne_source_reverse ha hb)
  · exact absurd h (source_swap_ne_source_rot ha)
  · exact absurd h (source_swap_ne_source_rotBack ha)
  · exact absurd h.symm (source_swap_ne_source_reverse hb ha)
  · exact reverse_eq_of_source_eq ha hb h
  · exact absurd h (source_reverse_ne_source_rot ha)
  · exact absurd h (source_reverse_ne_source_rotBack ha)
  · exact absurd h.symm (source_swap_ne_source_rot hb)
  · exact absurd h.symm (source_reverse_ne_source_rot hb)
  · rfl
  · exact absurd h source_rot_ne_source_rotBack
  · exact absurd h.symm (source_swap_ne_source_rotBack hb)
  · exact absurd h.symm (source_reverse_ne_source_rotBack hb)
  · exact absurd h.symm source_rot_ne_source_rotBack
  · rfl

lemma eq_of_source_eq (ha : a.IsCanonical) (hb : b.IsCanonical) (h : a.source = b.source) :
    a = b := by
  rcases Int.lt_trichotomy a.effect.delta 0 with hneg | hzero | hpos
  · exact eq_of_source_eq_of_neg ha hb h hneg
  · exact eq_of_source_eq_of_zero ha hb h hzero
  · exact eq_of_source_eq_of_pos ha hb h hpos

lemma source_eq_iff_canonical_eq (ha : a.Encodable) (hb : b.Encodable) :
    a.source = b.source ↔ a.canonical = b.canonical := by
  rw [← source_canonical ha, ← source_canonical hb]
  exact ⟨eq_of_source_eq (isCanonical_canonical ha) (isCanonical_canonical hb), congrArg source⟩

/-- Of the instructions that the factories give, two act alike just in case one spelling is chosen
for both. The factories give that spelling too, and it does what the instruction does. So
instructions that act alike are one and the same where each is spelled as it is chosen to be. -/
theorem actsLike_iff_canonical_eq (α : Type*) [Nontrivial α] {a b : StackOp}
    (ha : Leaf.Built (.stack a)) (hb : Leaf.Built (.stack b)) :
    (ActsLike α a b ↔ a.canonical = b.canonical) ∧
      (Leaf.Built (.stack a.canonical) ∧ ActsLike α a a.canonical) ∧
      (a.canonical = a → b.canonical = b → ActsLike α a b → a = b) := by
  rw [Leaf.built_stack_iff] at ha hb
  have hiff : ActsLike α a b ↔ a.canonical = b.canonical := by
    rw [actsLike_iff_source_eq, source_eq_iff_canonical_eq ha hb]
  refine ⟨hiff, ⟨?_, ?_⟩, fun hac hbc h => ?_⟩
  · rw [Leaf.built_stack_iff]
    exact encodable_canonical ha
  · rw [actsLike_iff_source_eq, source_canonical ha]
  · rw [← hac, ← hbc]
    exact hiff.mp h

/-- To turn round two values is to exchange them, and both are spelled as an exchange of two slots.
A block push of two values does what a push of two copies does only from the right slot. -/
theorem actsLike_samples :
    Leaf.Built (.stack (reverse 2 0)) ∧ Leaf.Built (.stack (swapTop 1)) ∧
      Leaf.Built (.stack (pushBlock 2 3)) ∧ Leaf.Built (.stack dup2) ∧
      (ActsLike ℕ (reverse 2 0) (swapTop 1) ∧ ActsLike ℕ (reverse 2 0) (swap 0 1)) ∧
      ¬ActsLike ℕ (pushBlock 2 3) dup2 := by
  have hreverse : Leaf.Built (.stack (reverse 2 0)) := @Leaf.Built.reverse 2 0 _ rfl
  have htop : Leaf.Built (.stack (swapTop 1)) := @Leaf.Built.swapTop 1 _ rfl
  have hblock : Leaf.Built (.stack (pushBlock 2 3)) := @Leaf.Built.pushBlock 2 3 _ rfl
  obtain ⟨hiff, ⟨-, hcanonical⟩, -⟩ := actsLike_iff_canonical_eq ℕ hreverse htop
  refine ⟨hreverse, htop, hblock, .dup2, ⟨hiff.mpr (by decide), hcanonical⟩, ?_⟩
  exact (actsLike_iff_canonical_eq ℕ hblock .dup2).1.not.mpr (by decide)

/-- The top and the value below it are exchanged in two spellings, and the factories give both. -/
theorem swap_of_top_spelled_twice :
    Build.swapTop 1 = .ok (swapTop 1) ∧ Build.swap 0 1 = .ok (swap 0 1) ∧
      (∀ α : Type, ActsLike α (swapTop 1) (swap 0 1)) ∧
      ¬∀ a b, Leaf.Built (.stack a) → Leaf.Built (.stack b) → (∀ α : Type, ActsLike α a b) →
        a = b := by
  have hlike : ∀ α : Type, ActsLike α (swapTop 1) (swap 0 1) := fun _ _ _ _ => rfl
  have htop : Leaf.Built (.stack (swapTop 1)) := @Leaf.Built.swapTop 1 _ rfl
  have hswap : Leaf.Built (.stack (swap 0 1)) := @Leaf.Built.swap 0 1 _ rfl
  exact ⟨rfl, rfl, hlike, fun hall => absurd (hall _ _ htop hswap hlike) (by decide)⟩

end StackOp

end TvmAssembly
