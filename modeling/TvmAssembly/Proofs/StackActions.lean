import Mathlib.Logic.Function.Iterate
import Mathlib.Logic.Nontrivial.Basic
import Mathlib.Tactic.Lemma
import Mathlib.Tactic.SplitIfs
import TvmAssembly.Leaf.StackOp

/-!
# What stack instructions do

A stack is a list of values, the top first. An instruction looks at no value, it only copies, drops
and moves them: each place of the stack that it leaves holds the value of one slot of the stack that
it was given. Which slot that is (`StackOp.source`) hangs on the instruction alone, so the map from
places to slots says all that the instruction does. Two instructions act alike, on every stack that
has the slots they refer to, just in case their maps agree (`StackOp.actsLike_iff_source_eq`).
-/

namespace TvmAssembly

namespace Stack

variable {α : Type*}

/-- Puts a copy of a slot on top. -/
def pushSlot (i : ℕ) (s : List α) : List α :=
  s[i]?.toList ++ s

/-- Overwrites a slot with the top, and removes the top. -/
def popInto (i : ℕ) : List α → List α
  | [] => []
  | top :: rest => ((top :: rest).set i top).tail

/-- Exchanges two slots. -/
def exchange (i j : ℕ) (s : List α) : List α :=
  match s[i]?, s[j]? with
  | some a, some b => (s.set i b).set j a
  | _, _ => s

/-- Removes `n` values below the top `k`. -/
def dropBelow (n k : ℕ) (s : List α) : List α :=
  s.take k ++ s.drop (k + n)

/-- Turns round `n` values from slot `i` on. -/
def reverseFrom (n i : ℕ) (s : List α) : List α :=
  s.take i ++ (((s.drop i).take n).reverse ++ s.drop (i + n))

/-- The third value comes to the top. -/
def rotate : List α → List α
  | a :: b :: c :: rest => c :: a :: b :: rest
  | s => s

/-- The top goes below the next two values. -/
def rotateBack : List α → List α
  | a :: b :: c :: rest => b :: c :: a :: rest
  | s => s

end Stack

namespace StackOp

/-- How many values a stack has if all slots that the instruction refers to are there. -/
def depth : StackOp → ℕ
  | drop n => n.toNat
  | pop i => i.toNat + 1
  | pushBlock _ i => i.toNat + 1
  | push i => i.toNat + 1
  | dup2 => 2
  | push2 i j => max i.toNat j.toNat + 1
  | push3 i j k => max i.toNat (max j.toNat k.toNat) + 1
  | over2 => 4
  | swapTop i => i.toNat + 1
  | swap i j => max i.toNat j.toNat + 1
  | dropBelow n k => n.toNat + k.toNat
  | reverse n i => n.toNat + i.toNat
  | rot | rotBack => 3

/-- The stack that the instruction leaves. A stack with too few values may become anything. -/
def act {α : Type*} : StackOp → List α → List α
  | drop n, s => s.drop n.toNat
  | pop i, s => Stack.popInto i.toNat s
  | pushBlock n i, s => (Stack.pushSlot i.toNat)^[n.toNat] s
  | push i, s => Stack.pushSlot i.toNat s
  | dup2, s => (Stack.pushSlot 1)^[2] s
  | push2 i j, s => s[j.toNat]?.toList ++ (s[i.toNat]?.toList ++ s)
  | push3 i j k, s => s[k.toNat]?.toList ++ (s[j.toNat]?.toList ++ (s[i.toNat]?.toList ++ s))
  | over2, s => (Stack.pushSlot 3)^[2] s
  | swapTop i, s => Stack.exchange 0 i.toNat s
  | swap i j, s => Stack.exchange i.toNat j.toNat s
  | dropBelow n k, s => Stack.dropBelow n.toNat k.toNat s
  | reverse n i, s => Stack.reverseFrom n.toNat i.toNat s
  | rot, s => Stack.rotate s
  | rotBack, s => Stack.rotateBack s

/-- The instructions leave the same stack wherever there are the slots that either refers to. -/
def ActsLike (α : Type*) (a b : StackOp) : Prop :=
  ∀ s : List α, a.depth ≤ s.length → b.depth ≤ s.length → a.act s = b.act s

end StackOp

/-! ## Where values come from -/

namespace Stack

variable {α : Type*} {s : List α}

def pushSource (i : ℕ) : ℕ → ℕ
  | 0 => i
  | p + 1 => p

def exchangeSource (i j p : ℕ) : ℕ :=
  if p = i then j else if p = j then i else p

def reverseSource (n i p : ℕ) : ℕ :=
  if i ≤ p ∧ p < i + n then i + i + n - 1 - p else p

lemma exchangeSource_of_ne {i j p : ℕ} (hi : p ≠ i) (hj : p ≠ j) : exchangeSource i j p = p := by
  rw [exchangeSource, if_neg hi, if_neg hj]

lemma length_pushSlot {i : ℕ} (h : i < s.length) : (pushSlot i s).length = s.length + 1 := by
  simp [pushSlot, h]

lemma getElem?_pushSlot {i : ℕ} (h : i < s.length) (p : ℕ) :
    (pushSlot i s)[p]? = s[pushSource i p]? := by
  cases p <;> simp [pushSlot, pushSource, h]

/-- A slot that is pushed again and again is that of the stack as it then stands. -/
lemma getElem?_iterate_pushSlot {i : ℕ} (h : i < s.length) (n p : ℕ) :
    ((pushSlot i)^[n] s)[p]? = s[(pushSource i)^[n] p]? := by
  induction n generalizing s with
  | zero => rfl
  | succ n ih =>
    have hlonger : i < (pushSlot i s).length := by
      rw [length_pushSlot h]
      omega
    rw [Function.iterate_succ_apply, ih hlonger, getElem?_pushSlot h,
      Function.iterate_succ_apply']

/-- Below what was pushed the stack is as it was. -/
lemma pushSource_of_pos {i p : ℕ} (h : 0 < p) : pushSource i p = p - 1 := by
  cases p with
  | zero => cases h
  | succ p => rfl

lemma iterate_pushSource {i n p : ℕ} (h : n ≤ p) : (pushSource i)^[n] p = p - n := by
  induction n generalizing p with
  | zero => rfl
  | succ n ih =>
    rw [Function.iterate_succ_apply, pushSource_of_pos (by omega), ih (by omega)]
    omega

/-- What was pushed first lies deepest. -/
lemma iterate_pushSource_self (i n : ℕ) : (pushSource i)^[n + 1] n = i := by
  rw [Function.iterate_succ_apply', iterate_pushSource (Nat.le_refl n), Nat.sub_self, pushSource]

lemma getElem?_popInto {i : ℕ} (h : i < s.length) (p : ℕ) :
    (popInto i s)[p]? = s[if p + 1 = i then 0 else p + 1]? := by
  cases s with
  | nil => cases h
  | cons top rest =>
    by_cases hp : p + 1 = i
    · rw [if_pos hp, popInto, List.getElem?_tail, hp, List.getElem?_set_self h]
      rfl
    · rw [if_neg hp, popInto, List.getElem?_tail, List.getElem?_set_ne (Ne.symm hp)]

lemma getElem?_exchange {i j : ℕ} (hi : i < s.length) (hj : j < s.length) (p : ℕ) :
    (exchange i j s)[p]? = s[exchangeSource i j p]? := by
  have hexchange : exchange i j s = (s.set i s[j]).set j s[i] := by
    simp [exchange, hi, hj]
  rw [hexchange, exchangeSource]
  by_cases hpj : j = p
  · subst hpj
    rw [List.getElem?_set_self (by rwa [List.length_set]), if_pos rfl]
    by_cases hji : j = i
    · subst hji
      rw [if_pos rfl, List.getElem?_eq_getElem hj]
    · rw [if_neg hji, List.getElem?_eq_getElem hi]
  · rw [List.getElem?_set_ne hpj]
    by_cases hpi : i = p
    · subst hpi
      rw [List.getElem?_set_self hi, if_pos rfl, List.getElem?_eq_getElem hj]
    · rw [List.getElem?_set_ne hpi, if_neg (Ne.symm hpi), if_neg (Ne.symm hpj)]

lemma getElem?_dropBelow {n k : ℕ} (h : n + k ≤ s.length) (p : ℕ) :
    (dropBelow n k s)[p]? = s[if p < k then p else p + n]? := by
  rw [dropBelow, List.getElem?_append, List.length_take_of_le (by omega)]
  by_cases hp : p < k
  · rw [if_pos hp, if_pos hp, List.getElem?_take_of_lt hp]
  · rw [if_neg hp, if_neg hp, List.getElem?_drop]
    congr 1
    omega

lemma getElem?_reverseFrom {n i : ℕ} (h : n + i ≤ s.length) (p : ℕ) :
    (reverseFrom n i s)[p]? = s[reverseSource n i p]? := by
  have hmiddle : (((s.drop i).take n).reverse).length = n := by
    rw [List.length_reverse, List.length_take, List.length_drop]
    omega
  rw [reverseFrom, List.getElem?_append, List.length_take_of_le (by omega), reverseSource]
  by_cases hp : p < i
  · rw [if_pos hp, if_neg (by omega), List.getElem?_take_of_lt hp]
  · rw [if_neg hp, List.getElem?_append, hmiddle]
    by_cases hn : p - i < n
    · rw [if_pos hn, if_pos (by omega)]
      have hlength : ((s.drop i).take n).length = n := by
        rw [← List.length_reverse, hmiddle]
      rw [List.getElem?_reverse (by omega), hlength, List.getElem?_take_of_lt (by omega),
        List.getElem?_drop]
      congr 1
      omega
    · rw [if_neg hn, if_neg (by omega), List.getElem?_drop]
      congr 1
      omega

end Stack

namespace StackOp

/-- The slot whose value comes to a place. -/
def source : StackOp → ℕ → ℕ
  | drop n, p => n.toNat + p
  | pop i, p => if p + 1 = i.toNat then 0 else p + 1
  | pushBlock n i, p => (Stack.pushSource i.toNat)^[n.toNat] p
  | push i, p => Stack.pushSource i.toNat p
  | dup2, p => (Stack.pushSource 1)^[2] p
  | push2 i j, p => Stack.pushSource i.toNat (Stack.pushSource (j.toNat + 1) p)
  | push3 i j k, p =>
    Stack.pushSource i.toNat
      (Stack.pushSource (j.toNat + 1) (Stack.pushSource (k.toNat + 2) p))
  | over2, p => (Stack.pushSource 3)^[2] p
  | swapTop i, p => Stack.exchangeSource 0 i.toNat p
  | swap i j, p => Stack.exchangeSource i.toNat j.toNat p
  | dropBelow n k, p => if p < k.toNat then p else p + n.toNat
  | reverse n i, p => Stack.reverseSource n.toNat i.toNat p
  | rot, 0 => 2
  | rot, 1 => 0
  | rot, 2 => 1
  | rot, p => p
  | rotBack, 0 => 1
  | rotBack, 1 => 2
  | rotBack, 2 => 0
  | rotBack, p => p

variable {α : Type*}

/-- Copies of slots of the stack as it was are, one after the other, copies of slots of the stack as
it then stands. -/
lemma act_push2 {i j : UInt8} {s : List α} (h : (push2 i j).depth ≤ s.length) :
    (push2 i j).act s = Stack.pushSlot (j.toNat + 1) (Stack.pushSlot i.toNat s) := by
  have hi : i.toNat < s.length := by simp only [depth] at h; omega
  simp [act, Stack.pushSlot, hi]

lemma act_push3 {i j k : UInt8} {s : List α} (h : (push3 i j k).depth ≤ s.length) :
    (push3 i j k).act s = Stack.pushSlot (k.toNat + 2)
      (Stack.pushSlot (j.toNat + 1) (Stack.pushSlot i.toNat s)) := by
  have hi : i.toNat < s.length := by simp only [depth] at h; omega
  have hj : j.toNat < s.length := by simp only [depth] at h; omega
  simp [act, Stack.pushSlot, hi, hj]

/-- Each place of the stack that is left holds the value of its source. -/
theorem getElem?_act {op : StackOp} {s : List α} (h : op.depth ≤ s.length) (p : ℕ) :
    (op.act s)[p]? = s[op.source p]? := by
  cases op with
  | drop n => exact List.getElem?_drop
  | pop i => exact Stack.getElem?_popInto h p
  | pushBlock n i => exact Stack.getElem?_iterate_pushSlot h n.toNat p
  | push i => exact Stack.getElem?_pushSlot h p
  | dup2 => exact Stack.getElem?_iterate_pushSlot h 2 p
  | over2 => exact Stack.getElem?_iterate_pushSlot h 2 p
  | push2 i j =>
    rw [act_push2 h, source]
    simp only [depth] at h
    have hi : i.toNat < s.length := by omega
    have hj : j.toNat + 1 < (Stack.pushSlot i.toNat s).length := by
      rw [Stack.length_pushSlot hi]
      omega
    rw [Stack.getElem?_pushSlot hj, Stack.getElem?_pushSlot hi]
  | push3 i j k =>
    rw [act_push3 h, source]
    simp only [depth] at h
    have hi : i.toNat < s.length := by omega
    have hj : j.toNat + 1 < (Stack.pushSlot i.toNat s).length := by
      rw [Stack.length_pushSlot hi]
      omega
    have hk : k.toNat + 2 <
        (Stack.pushSlot (j.toNat + 1) (Stack.pushSlot i.toNat s)).length := by
      rw [Stack.length_pushSlot hj, Stack.length_pushSlot hi]
      omega
    rw [Stack.getElem?_pushSlot hk, Stack.getElem?_pushSlot hj, Stack.getElem?_pushSlot hi]
  | swapTop i =>
    simp only [depth] at h
    exact Stack.getElem?_exchange (by omega) (by omega) p
  | swap i j =>
    simp only [depth] at h
    exact Stack.getElem?_exchange (by omega) (by omega) p
  | dropBelow n k => exact Stack.getElem?_dropBelow h p
  | reverse n i => exact Stack.getElem?_reverseFrom h p
  | rot =>
    obtain ⟨a, b, c, rest, rfl⟩ : ∃ a b c rest, s = a :: b :: c :: rest := by
      match s, h with
      | a :: b :: c :: rest, _ => exact ⟨a, b, c, rest, rfl⟩
    match p with
    | 0 | 1 | 2 | _ + 3 => rfl
  | rotBack =>
    obtain ⟨a, b, c, rest, rfl⟩ : ∃ a b c rest, s = a :: b :: c :: rest := by
      match s, h with
      | a :: b :: c :: rest, _ => exact ⟨a, b, c, rest, rfl⟩
    match p with
    | 0 | 1 | 2 | _ + 3 => rfl

/-- Two bytes are added without a carry beyond the word. -/
lemma toNat_add_toUInt32 (m n : UInt8) :
    (m.toUInt32 + n.toUInt32).toNat = m.toNat + n.toNat := by
  have hm := m.toNat_lt
  have hn := n.toNat_lt
  rw [UInt32.toNat_add, UInt8.toNat_toUInt32, UInt8.toNat_toUInt32]
  omega

/-- Far enough down a place lies lower than its source by the values that were added. -/
theorem source_add_ret (op : StackOp) {p : ℕ} (h : op.depth + op.effect.ret.toNat ≤ p) :
    op.source p + op.effect.ret.toNat = p + op.effect.take.toNat := by
  cases op with
  | drop n => simp [source, effect, Nat.add_comm]
  | pop i =>
    simp only [depth] at h
    simp [source, effect, show p + 1 ≠ i.toNat by omega]
  | pushBlock n i =>
    have hn : n.toNat ≤ p := by
      simp only [depth, effect, UInt8.toNat_toUInt32] at h
      omega
    simp [source, effect, Stack.iterate_pushSource hn, hn]
  | push i =>
    have hp : 1 ≤ p := by simp [depth, effect] at h; omega
    simp [source, effect, Stack.pushSource_of_pos hp, hp]
  | dup2 =>
    have hp : 2 ≤ p := by simp [depth, effect] at h; omega
    simp [source, effect, Stack.iterate_pushSource hp, hp]
  | over2 =>
    have hp : 2 ≤ p := by simp [depth, effect] at h; omega
    simp [source, effect, Stack.iterate_pushSource hp, hp]
  | push2 i j =>
    have hp : 2 < p := by simp [depth, effect] at h; omega
    have hsecond : Stack.pushSource (j.toNat + 1) p = p - 1 := Stack.pushSource_of_pos (by omega)
    rw [source, hsecond, Stack.pushSource_of_pos (by omega)]
    simp [effect]
    omega
  | push3 i j k =>
    have hp : 3 < p := by simp [depth, effect] at h; omega
    have hthird : Stack.pushSource (k.toNat + 2) p = p - 1 := Stack.pushSource_of_pos (by omega)
    have hsecond : Stack.pushSource (j.toNat + 1) (p - 1) = p - 1 - 1 :=
      Stack.pushSource_of_pos (by omega)
    rw [source, hthird, hsecond, Stack.pushSource_of_pos (by omega)]
    simp [effect]
    omega
  | swapTop i =>
    simp only [depth] at h
    simp [source, effect, StackEffect.none,
      Stack.exchangeSource_of_ne (show p ≠ 0 by omega) (show p ≠ i.toNat by omega)]
  | swap i j =>
    simp only [depth] at h
    simp [source, effect, StackEffect.none,
      Stack.exchangeSource_of_ne (show p ≠ i.toNat by omega) (show p ≠ j.toNat by omega)]
  | dropBelow n k =>
    simp only [depth, effect, UInt8.toNat_toUInt32] at h
    simp only [source, effect, toNat_add_toUInt32, UInt8.toNat_toUInt32]
    rw [if_neg (by omega)]
    omega
  | reverse n i =>
    simp only [depth] at h
    simp [source, effect, StackEffect.none, Stack.reverseSource]
    omega
  | rot =>
    match p, h with
    | _ + 3, _ => rfl
  | rotBack =>
    match p, h with
    | _ + 3, _ => rfl

/-- If there are two values at all, a stack tells where each of its values came from. -/
theorem actsLike_iff_source_eq [Nontrivial α] {a b : StackOp} :
    ActsLike α a b ↔ a.source = b.source := by
  constructor
  · intro h
    funext p
    by_contra hne
    obtain ⟨x, y, hxy⟩ := exists_pair_ne α
    -- Only the source of the place under the one instruction holds `x`.
    let height := a.depth + b.depth + a.source p + b.source p + 1
    let s := (List.range height).map fun i => if i = a.source p then x else y
    have hlength : s.length = height := by simp [s]
    have hact : a.act s = b.act s := h s (by omega) (by omega)
    have hp : s[a.source p]? = s[b.source p]? := by
      rw [← getElem?_act (by omega), ← getElem?_act (by omega), hact]
    have hslot {i : ℕ} (hi : i < height) : s[i]? = some (if i = a.source p then x else y) := by
      simp [s, hi]
    rw [hslot (by omega), hslot (by omega), if_pos rfl, if_neg (Ne.symm hne)] at hp
    exact hxy (Option.some.inj hp)
  · intro h s ha hb
    apply List.ext_getElem?
    intro p
    rw [getElem?_act ha, getElem?_act hb, h]

end StackOp

end TvmAssembly
