import Mathlib.Data.Nat.Basic
import TvmAssembly.Proofs.StackActions
import TvmAssembly.Proofs.StackOperands

/-!
# Heights of stacks

A stack instruction declares how many values it takes and how many it returns. Whatever stack it is
run on, if only the slots that it refers to are there, the height changes by the difference
(`StackOp.length_act`). The two requests that a factory brings to a shorter spelling lose nothing by
it: what is built does what was asked for.
-/

namespace TvmAssembly

namespace Stack

variable {α : Type*} {s : List α}

lemma length_iterate_pushSlot {i : ℕ} (h : i < s.length) (n : ℕ) :
    ((pushSlot i)^[n] s).length = s.length + n := by
  induction n generalizing s with
  | zero => rfl
  | succ n ih =>
    have hlonger : i < (pushSlot i s).length := by
      rw [length_pushSlot h]
      omega
    rw [Function.iterate_succ_apply, ih hlonger, length_pushSlot h]
    omega

lemma length_popInto (i : ℕ) (s : List α) : (popInto i s).length = s.length - 1 := by
  cases s with
  | nil => rfl
  | cons top rest => rw [popInto, List.length_tail, List.length_set]

lemma length_exchange (i j : ℕ) (s : List α) : (exchange i j s).length = s.length := by
  unfold exchange
  split
  · rw [List.length_set, List.length_set]
  · rfl

lemma length_dropBelow {n k : ℕ} (h : n + k ≤ s.length) :
    (dropBelow n k s).length + n = s.length := by
  unfold dropBelow
  rw [List.length_append, List.length_take, List.length_drop]
  omega

lemma length_reverseFrom (n i : ℕ) (s : List α) : (reverseFrom n i s).length = s.length := by
  unfold reverseFrom
  rw [List.length_append, List.length_append, List.length_reverse, List.length_take,
    List.length_take, List.length_drop, List.length_drop]
  omega

lemma length_rotate (s : List α) : (rotate s).length = s.length := by
  unfold rotate
  split <;> rfl

lemma length_rotateBack (s : List α) : (rotateBack s).length = s.length := by
  unfold rotateBack
  split <;> rfl

end Stack

namespace StackOp

variable {α : Type*} {s : List α}

/-- The slots that the instruction refers to. One that drops values below others also refers to
those that it keeps. -/
def Refers : StackOp → ℕ → Prop
  | drop n, p => p < n.toNat
  | pop i, p => p = 0 ∨ p = i.toNat
  | pushBlock _ i, p => p = i.toNat
  | push i, p => p = i.toNat
  | dup2, p => p = 0 ∨ p = 1
  | push2 i j, p => p = i.toNat ∨ p = j.toNat
  | push3 i j k, p => p = i.toNat ∨ p = j.toNat ∨ p = k.toNat
  | over2, p => p = 2 ∨ p = 3
  | swapTop i, p => p = 0 ∨ p = i.toNat
  | swap i j, p => p = i.toNat ∨ p = j.toNat
  | dropBelow n k, p => p < n.toNat + k.toNat
  | reverse n i, p => i.toNat ≤ p ∧ p < i.toNat + n.toNat
  | rot, p | rotBack, p => p < 3

/-- The stack has all slots that the instruction refers to. -/
def HasSlots (op : StackOp) (s : List α) : Prop :=
  ∀ p, op.Refers p → p < s.length

/-- What is taken and what is left make up what was there and what is returned. -/
theorem length_act {op : StackOp} (h : op.HasSlots s) :
    (op.act s).length + op.effect.take.toNat = s.length + op.effect.ret.toNat := by
  cases op with
  | drop n =>
    have hn : n.toNat ≤ s.length := by
      by_contra hlt
      exact Nat.lt_irrefl _ (h s.length (by simpa [Refers] using hlt))
    simp only [act, effect, List.length_drop, UInt8.toNat_toUInt32, UInt32.toNat_zero]
    omega
  | pop i =>
    have htop : 0 < s.length := h 0 (.inl rfl)
    simp only [act, effect, Stack.length_popInto, UInt32.toNat_one, UInt32.toNat_zero]
    omega
  | pushBlock n i =>
    have hi : i.toNat < s.length := h i.toNat rfl
    simp only [act, effect, Stack.length_iterate_pushSlot hi, UInt8.toNat_toUInt32]
    rfl
  | push i =>
    have hi : i.toNat < s.length := h i.toNat rfl
    simp only [act, effect, Stack.length_pushSlot hi]
    rfl
  | dup2 =>
    have hnext : 1 < s.length := h 1 (.inr rfl)
    simp only [act, effect, Stack.length_iterate_pushSlot hnext]
    rfl
  | over2 =>
    have hlast : 3 < s.length := h 3 (.inr rfl)
    simp only [act, effect, Stack.length_iterate_pushSlot hlast]
    rfl
  | push2 i j =>
    have hi : i.toNat < s.length := h i.toNat (.inl rfl)
    have hj : j.toNat < s.length := h j.toNat (.inr rfl)
    simp [act, effect, hi, hj]
  | push3 i j k =>
    have hi : i.toNat < s.length := h i.toNat (.inl rfl)
    have hj : j.toNat < s.length := h j.toNat (.inr (.inl rfl))
    have hk : k.toNat < s.length := h k.toNat (.inr (.inr rfl))
    simp [act, effect, hi, hj, hk]
  | dropBelow n k =>
    have hslots : n.toNat + k.toNat ≤ s.length := by
      by_contra hlt
      exact Nat.lt_irrefl _ (h s.length (by simpa [Refers] using hlt))
    have hlength := Stack.length_dropBelow hslots
    simp only [act, effect, toNat_add_toUInt32, UInt8.toNat_toUInt32]
    omega
  | swapTop i => exact congrArg (· + 0) (Stack.length_exchange 0 i.toNat s)
  | swap i j => exact congrArg (· + 0) (Stack.length_exchange i.toNat j.toNat s)
  | reverse n i => exact congrArg (· + 0) (Stack.length_reverseFrom n.toNat i.toNat s)
  | rot => exact congrArg (· + 0) (Stack.length_rotate s)
  | rotBack => exact congrArg (· + 0) (Stack.length_rotateBack s)

end StackOp

namespace Build

/-- A block push of one value is asked for with a slot that is a byte, and built as a push of it. -/
lemma outcome_pushBlock_one_eq_ok_iff {slot : UInt32} {op : StackOp} :
    (pushBlock 1 slot).outcome = .ok op ↔
      slot ≤ maxShortSlot ∧ ∃ i : UInt8, slot = i.toUInt32 ∧ op = .push i := by
  constructor
  · intro h
    obtain ⟨n, i, -, hi, hoperands⟩ := blockOperands_of_outcome h
    have hchecked := hoperands
    unfold blockOperands at hchecked
    obtain ⟨n', hn, hnext⟩ := Fault.bind_eq_ok_iff.mp hchecked
    obtain ⟨i', hslot, hpair⟩ := Fault.bind_eq_ok_iff.mp hnext
    obtain ⟨rfl, rfl⟩ := Prod.mk.inj (Except.ok.inj hpair)
    obtain ⟨-, hone⟩ := checked_eq_ok_iff.mp hn
    obtain ⟨hrange, hbyte⟩ := checked_eq_ok_iff.mp hslot
    have hn' : n' = 1 := by
      rw [← UInt32.toNat_inj, UInt8.toNat_toUInt32] at hone
      exact UInt8.toNat_inj.mp hone.symm
    rw [outcome_pushBlock hoperands, if_pos hn'] at h
    exact ⟨hrange.2, i', hbyte, (Except.ok.inj h).symm⟩
  · rintro ⟨hle, i, rfl, rfl⟩
    have hi : i.toNat ≤ maxShortSlot.toNat := by
      rwa [UInt32.le_iff_toNat_le, UInt8.toNat_toUInt32] at hle
    have hoperands : blockOperands 1 i.toUInt32 = .ok (1, i) := by
      have hone : checked ⟨"make_blkpush", "qty", 1, maxShortSlot, by decide⟩ 1 = .ok 1 := rfl
      unfold blockOperands
      rw [hone]
      exact checked_bind_toUInt32 (Nat.zero_le _) hi
    rw [outcome_pushBlock hoperands, if_pos rfl]

end Build

namespace StackOp

/-- On every stack with the slots that an instruction refers to, the height changes by what the
instruction declares. A block push of one value is built for each slot that a block push can have,
and does what that block push does; so does the pop that is built for a drop of the one value below
the top. -/
theorem height_act_eq_delta (α : Type*) :
    (∀ (op : StackOp) (s : List α), op.HasSlots s →
      ((op.act s).length : ℤ) - s.length = op.effect.delta) ∧
    (∀ slot, (∃ op, (Build.pushBlock 1 slot).outcome = .ok op) ↔ slot ≤ Build.maxShortSlot) ∧
    (∀ slot op, (Build.pushBlock 1 slot).outcome = .ok op → ∃ i : UInt8, slot = i.toUInt32 ∧
      ∀ s : List α, (pushBlock 1 i).HasSlots s → op.act s = (pushBlock 1 i).act s) ∧
    ∃ op, (Build.dropBelow 1 1).outcome = .ok op ∧
      ∀ s : List α, (dropBelow 1 1).HasSlots s → op.act s = (dropBelow 1 1).act s := by
  refine ⟨?_, ?_, ?_, pop 1, rfl, ?_⟩
  · intro op s h
    have hlength := length_act h
    simp only [StackEffect.delta]
    omega
  · intro slot
    constructor
    · rintro ⟨op, h⟩
      exact (Build.outcome_pushBlock_one_eq_ok_iff.mp h).1
    · intro h
      have hbyte : slot.toUInt8.toUInt32 = slot := by
        have hle : slot.toNat ≤ 15 := UInt32.le_iff_toNat_le.mp h
        rw [← UInt32.toNat_inj, UInt8.toNat_toUInt32, UInt32.toNat_toUInt8]
        omega
      exact ⟨push slot.toUInt8,
        Build.outcome_pushBlock_one_eq_ok_iff.mpr ⟨h, slot.toUInt8, hbyte.symm, rfl⟩⟩
  · intro slot op h
    obtain ⟨-, i, hslot, rfl⟩ := Build.outcome_pushBlock_one_eq_ok_iff.mp h
    exact ⟨i, hslot, fun s _ => rfl⟩
  · intro s h
    have hslots : 1 < s.length := h 1 (by unfold Refers; decide)
    match s, hslots with
    | top :: below :: rest, _ => rfl

theorem height_act_eq_delta_samples :
    (((dropBelow 2 3).act [1, 2, 3, 4, 5, 6]).length : ℤ) - [1, 2, 3, 4, 5, 6].length =
      (dropBelow 2 3).effect.delta ∧
    (((pushBlock 3 1).act ['a', 'b']).length : ℤ) - ['a', 'b'].length =
      (pushBlock 3 1).effect.delta ∧
    (∃ op, (Build.pushBlock 1 15).outcome = .ok op) ∧
    (∃ i : UInt8, 7 = i.toUInt32 ∧ ∀ s : List ℕ, (pushBlock 1 i).HasSlots s →
      (push 7).act s = (pushBlock 1 i).act s) ∧
    (pop 1).act [1, 2, 3] = (dropBelow 1 1).act [1, 2, 3] := by
  have hkept : (dropBelow 2 3).HasSlots [1, 2, 3, 4, 5, 6] := by
    intro p hp
    exact lt_trans hp (by decide)
  have hpushed : (pushBlock 3 1).HasSlots ['a', 'b'] := by
    intro p hp
    rw [show p = 1 from hp]
    decide
  have hboth : (dropBelow 1 1).HasSlots [1, 2, 3] := by
    intro p hp
    exact lt_trans hp (by decide)
  obtain ⟨hheight, hbuilt, hpush, op, hop, hpop⟩ := height_act_eq_delta ℕ
  rw [← Except.ok.inj hop] at hpop
  exact ⟨hheight _ _ hkept, (height_act_eq_delta Char).1 _ _ hpushed,
    (hbuilt 15).mpr (by decide), hpush 7 (push 7) rfl, hpop _ hboth⟩

end StackOp

end TvmAssembly
