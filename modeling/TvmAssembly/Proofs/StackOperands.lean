import TvmAssembly.Proofs.BuiltTrees

/-!
# Operands of the stack instructions that are built

A factory gives an instruction just in case each operand is in its range, and then the instruction
has the operands as they were given. So the instructions that some factory gives are those whose
operands the machine encodes, less the two that have a shorter spelling (`Leaf.built_stack_iff`).
-/

namespace TvmAssembly

/-- The operands are such as some factory admits and leaves as they are. -/
def StackOp.Encodable : StackOp → Prop
  | drop n => 1 ≤ n.toNat
  | pop i => 1 ≤ i.toNat
  | pushBlock n i => 2 ≤ n.toNat ∧ n.toNat ≤ 15 ∧ i.toNat ≤ 15
  | push2 i j => i.toNat ≤ 15 ∧ j.toNat ≤ 15
  | push3 i j k => i.toNat ≤ 15 ∧ j.toNat ≤ 15 ∧ k.toNat ≤ 15
  | swapTop i => 1 ≤ i.toNat
  | dropBelow n k => 1 ≤ n.toNat ∧ n.toNat ≤ 15 ∧ k.toNat ≤ 15 ∧ ¬(n.toNat = 1 ∧ k.toNat = 1)
  | push _ | swap _ _ | reverse _ _ | dup2 | over2 | rot | rotBack => True

namespace Build

/-- An operand that is admitted is a byte in its range. -/
lemma exists_byte_of_checked_bind {α : Type} {operand : Operand} {value : UInt32}
    {next : UInt8 → Except Fault α} {result : α}
    (h : (checked operand value >>= next) = .ok result) :
    ∃ byte : UInt8, (operand.low.toNat ≤ byte.toNat ∧ byte.toNat ≤ operand.high.toNat) ∧
      next byte = .ok result := by
  obtain ⟨byte, hchecked, hnext⟩ := Fault.bind_eq_ok_iff.mp h
  obtain ⟨hrange, rfl⟩ := checked_eq_ok_iff.mp hchecked
  rw [UInt32.le_iff_toNat_le, UInt32.le_iff_toNat_le, UInt8.toNat_toUInt32] at hrange
  exact ⟨byte, hrange, hnext⟩

/-- A byte in the range is admitted as it is. -/
lemma checked_bind_toUInt32 {α : Type} {operand : Operand} {byte : UInt8}
    {next : UInt8 → Except Fault α} (hlow : operand.low.toNat ≤ byte.toNat)
    (hhigh : byte.toNat ≤ operand.high.toNat) :
    (checked operand byte.toUInt32 >>= next) = next byte := by
  have hchecked : checked operand byte.toUInt32 = .ok byte := by
    rw [checked_eq_ok_iff, UInt32.le_iff_toNat_le, UInt32.le_iff_toNat_le, UInt8.toNat_toUInt32]
    exact ⟨⟨hlow, hhigh⟩, rfl⟩
  rw [hchecked]
  rfl

lemma byte_le_maxSlot (byte : UInt8) : byte.toNat ≤ maxSlot.toNat :=
  Nat.le_of_lt_succ byte.toNat_lt

/-- A block push of one value is a push, all others stay what they are. -/
lemma outcome_pushBlock {a b : UInt32} {n i : UInt8} (h : blockOperands a b = .ok (n, i)) :
    (pushBlock a b).outcome = .ok (if n = 1 then .push i else .pushBlock n i) := by
  have hpush : push i.toUInt32 = .ok (.push i) :=
    checked_bind_toUInt32 (Nat.zero_le _) (byte_le_maxSlot i)
  unfold pushBlock
  rw [h]
  by_cases hone : n = 1 <;> simp [hone, hpush, Attempt.silent]

/-- A drop of the one value below the top is a pop, all others stay what they are. -/
lemma outcome_dropBelow {a b : UInt32} {n k : UInt8} (h : belowOperands a b = .ok (n, k)) :
    (dropBelow a b).outcome = .ok (if n = 1 ∧ k = 1 then .pop 1 else .dropBelow n k) := by
  have hpop : pop 1 = .ok (.pop 1) := rfl
  unfold dropBelow
  rw [h]
  by_cases hone : n = 1 ∧ k = 1 <;> simp [hone, hpop, Attempt.silent]

lemma blockOperands_of_outcome {a b : UInt32} {op : StackOp}
    (h : (pushBlock a b).outcome = .ok op) :
    ∃ n i : UInt8, (1 ≤ n.toNat ∧ n.toNat ≤ 15) ∧ i.toNat ≤ 15 ∧
      blockOperands a b = .ok (n, i) := by
  cases hoperands : blockOperands a b with
  | error fault =>
    rw [pushBlock, hoperands] at h
    cases h
  | ok operands =>
    obtain ⟨n, hn, hnext⟩ := exists_byte_of_checked_bind hoperands
    obtain ⟨i, hi, hpair⟩ := exists_byte_of_checked_bind hnext
    exact ⟨n, i, hn, hi.2, hpair.symm⟩

lemma belowOperands_of_outcome {a b : UInt32} {op : StackOp}
    (h : (dropBelow a b).outcome = .ok op) :
    ∃ n k : UInt8, (1 ≤ n.toNat ∧ n.toNat ≤ 15) ∧ k.toNat ≤ 15 ∧
      belowOperands a b = .ok (n, k) := by
  cases hoperands : belowOperands a b with
  | error fault =>
    rw [dropBelow, hoperands] at h
    cases h
  | ok operands =>
    obtain ⟨n, hn, hnext⟩ := exists_byte_of_checked_bind hoperands
    obtain ⟨k, hk, hpair⟩ := exists_byte_of_checked_bind hnext
    exact ⟨n, k, hn, hk.2, hpair.symm⟩

end Build

/-- What a factory gives has operands that it admits. -/
lemma Leaf.Built.encodable {op : StackOp} (h : Leaf.Built (.stack op)) : op.Encodable := by
  cases h with
  | push h =>
    obtain ⟨i, -, h⟩ := Build.exists_byte_of_checked_bind h
    obtain rfl := Except.ok.inj h
    trivial
  | pop h =>
    obtain ⟨i, hi, h⟩ := Build.exists_byte_of_checked_bind h
    obtain rfl := Except.ok.inj h
    exact hi.1
  | drop h =>
    obtain ⟨i, hi, h⟩ := Build.exists_byte_of_checked_bind h
    obtain rfl := Except.ok.inj h
    exact hi.1
  | swapTop h =>
    obtain ⟨i, hi, h⟩ := Build.exists_byte_of_checked_bind h
    obtain rfl := Except.ok.inj h
    exact hi.1
  | swap h =>
    obtain ⟨i, -, h⟩ := Build.exists_byte_of_checked_bind h
    obtain ⟨j, -, h⟩ := Build.exists_byte_of_checked_bind h
    obtain rfl := Except.ok.inj h
    trivial
  | reverse h =>
    obtain ⟨i, -, h⟩ := Build.exists_byte_of_checked_bind h
    obtain ⟨j, -, h⟩ := Build.exists_byte_of_checked_bind h
    obtain rfl := Except.ok.inj h
    trivial
  | push2 h =>
    obtain ⟨i, hi, h⟩ := Build.exists_byte_of_checked_bind h
    obtain ⟨j, hj, h⟩ := Build.exists_byte_of_checked_bind h
    obtain rfl := Except.ok.inj h
    exact ⟨hi.2, hj.2⟩
  | push3 h =>
    obtain ⟨i, hi, h⟩ := Build.exists_byte_of_checked_bind h
    obtain ⟨j, hj, h⟩ := Build.exists_byte_of_checked_bind h
    obtain ⟨k, hk, h⟩ := Build.exists_byte_of_checked_bind h
    obtain rfl := Except.ok.inj h
    exact ⟨hi.2, hj.2, hk.2⟩
  | pushBlock h =>
    obtain ⟨n, i, hn, hi, hoperands⟩ := Build.blockOperands_of_outcome h
    rw [Build.outcome_pushBlock hoperands] at h
    obtain rfl := Except.ok.inj h
    by_cases hone : n = 1
    · rw [if_pos hone]
      trivial
    · rw [if_neg hone]
      rw [← UInt8.toNat_inj] at hone
      exact ⟨Nat.lt_of_le_of_ne hn.1 (Ne.symm hone), hn.2, hi⟩
  | dropBelow h =>
    obtain ⟨n, k, hn, hk, hoperands⟩ := Build.belowOperands_of_outcome h
    rw [Build.outcome_dropBelow hoperands] at h
    obtain rfl := Except.ok.inj h
    by_cases hone : n = 1 ∧ k = 1
    · rw [if_pos hone]
      exact Nat.le_refl 1
    · rw [if_neg hone]
      rw [← UInt8.toNat_inj, ← UInt8.toNat_inj] at hone
      exact ⟨hn.1, hn.2, hk, hone⟩
  | dup2 | over2 | rot | rotBack => trivial

/-- Operands that are admitted are given to the factory of the instruction's own kind. -/
lemma StackOp.Encodable.built {op : StackOp} (h : op.Encodable) : Leaf.Built (.stack op) := by
  cases op with
  | push i =>
    refine @Leaf.Built.push i.toUInt32 _ ?_
    exact Build.checked_bind_toUInt32 (Nat.zero_le _) (Build.byte_le_maxSlot i)
  | pop i =>
    refine @Leaf.Built.pop i.toUInt32 _ ?_
    exact Build.checked_bind_toUInt32 h (Build.byte_le_maxSlot i)
  | drop n =>
    refine @Leaf.Built.drop n.toUInt32 _ ?_
    exact Build.checked_bind_toUInt32 h (Build.byte_le_maxSlot n)
  | swapTop i =>
    refine @Leaf.Built.swapTop i.toUInt32 _ ?_
    exact Build.checked_bind_toUInt32 h (Build.byte_le_maxSlot i)
  | swap i j =>
    refine @Leaf.Built.swap i.toUInt32 j.toUInt32 _ ?_
    rw [Build.swap, Build.checked_bind_toUInt32 (Nat.zero_le _) (Build.byte_le_maxSlot i)]
    exact Build.checked_bind_toUInt32 (Nat.zero_le _) (Build.byte_le_maxSlot j)
  | reverse n i =>
    refine @Leaf.Built.reverse n.toUInt32 i.toUInt32 _ ?_
    rw [Build.reverse, Build.checked_bind_toUInt32 (Nat.zero_le _) (Build.byte_le_maxSlot n)]
    exact Build.checked_bind_toUInt32 (Nat.zero_le _) (Build.byte_le_maxSlot i)
  | push2 i j =>
    refine @Leaf.Built.push2 i.toUInt32 j.toUInt32 _ ?_
    rw [Build.push2, Build.checked_bind_toUInt32 (Nat.zero_le _) h.1]
    exact Build.checked_bind_toUInt32 (Nat.zero_le _) h.2
  | push3 i j k =>
    refine @Leaf.Built.push3 i.toUInt32 j.toUInt32 k.toUInt32 _ ?_
    rw [Build.push3, Build.checked_bind_toUInt32 (Nat.zero_le _) h.1,
      Build.checked_bind_toUInt32 (Nat.zero_le _) h.2.1]
    exact Build.checked_bind_toUInt32 (Nat.zero_le _) h.2.2
  | pushBlock n i =>
    have hoperands : Build.blockOperands n.toUInt32 i.toUInt32 = .ok (n, i) := by
      refine (Build.checked_bind_toUInt32 (Nat.le_of_lt ?_) h.2.1).trans ?_
      · exact h.1
      · exact Build.checked_bind_toUInt32 (Nat.zero_le _) h.2.2
    have hone : n ≠ 1 := by
      rintro rfl
      exact absurd h.1 (by decide)
    refine @Leaf.Built.pushBlock n.toUInt32 i.toUInt32 _ ?_
    rw [Build.outcome_pushBlock hoperands, if_neg hone]
  | dropBelow n k =>
    have hoperands : Build.belowOperands n.toUInt32 k.toUInt32 = .ok (n, k) := by
      refine (Build.checked_bind_toUInt32 ?_ h.2.1).trans ?_
      · exact h.1
      · exact Build.checked_bind_toUInt32 (Nat.zero_le _) h.2.2.1
    have hone : ¬(n = 1 ∧ k = 1) := by
      rintro ⟨rfl, rfl⟩
      exact h.2.2.2 ⟨rfl, rfl⟩
    refine @Leaf.Built.dropBelow n.toUInt32 k.toUInt32 _ ?_
    rw [Build.outcome_dropBelow hoperands, if_neg hone]
  | dup2 => exact .dup2
  | over2 => exact .over2
  | rot => exact .rot
  | rotBack => exact .rotBack

/-- The stack instructions that some factory gives are the encodable ones. -/
theorem Leaf.built_stack_iff {op : StackOp} : Leaf.Built (.stack op) ↔ op.Encodable :=
  ⟨Leaf.Built.encodable, StackOp.Encodable.built⟩

end TvmAssembly
