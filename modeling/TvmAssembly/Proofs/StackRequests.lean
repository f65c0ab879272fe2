import TvmAssembly.Proofs.StackOperands

/-!
# Requests for stack and global instructions

A request names an instruction and gives its operands as plain numbers, of which only few fit into
the instruction; `Request.arguments` says for each of them which do. A factory goes through its
arguments in order and refuses the first that is out of range (`Request.outcome_eq_answer`). If
there is none, it gives the instruction with the numbers as they are, and in two cases one that is
spelled shorter (`Request.normal`). All requests together give the encodable instructions, and no
factory is ever refused by another one that it calls.
-/

namespace TvmAssembly

/-- A number given for an operand. -/
structure Argument where
  operand : Operand
  value : UInt32

namespace Argument

def InRange (a : Argument) : Prop :=
  a.operand.low ≤ a.value ∧ a.value ≤ a.operand.high

instance (a : Argument) : Decidable a.InRange :=
  inferInstanceAs (Decidable (_ ∧ _))

def fault (a : Argument) : Fault := .outOfRange a.operand a.value

lemma checked_eq (a : Argument) : Build.checked a.operand a.value =
    if a.InRange then .ok a.value.toUInt8 else .error a.fault := rfl

/-- The byte of a number in range is that number. -/
lemma InRange.toUInt32_toUInt8 {a : Argument} (h : a.InRange) :
    a.value.toUInt8.toUInt32 = a.value := by
  have hchecked : Build.checked a.operand a.value = .ok a.value.toUInt8 := by
    rw [checked_eq, if_pos h]
  exact (Build.checked_eq_ok_iff.mp hchecked).2.symm

lemma InRange.toUInt8_eq_iff {a : Argument} (h : a.InRange) {byte : UInt8} :
    a.value.toUInt8 = byte ↔ a.value = byte.toUInt32 := by
  rw [← UInt8.toUInt32_inj, h.toUInt32_toUInt8]

end Argument

/-- A stack or global instruction that is asked for. -/
inductive Request where
  | push (slot : UInt32)
  | pop (slot : UInt32)
  | drop (count : UInt32)
  | swapTop (slot : UInt32)
  | swap (first second : UInt32)
  | pushBlock (count slot : UInt32)
  | push2 (first second : UInt32)
  | push3 (first second third : UInt32)
  | dropBelow (dropped kept : UInt32)
  | reverse (count offset : UInt32)
  | dup2
  | over2
  | rot
  | rotBack
  | global (mode : GlobalMode) (index : UInt32)

namespace Build

/-- The factories of the global instructions. -/
def accessGlobal : GlobalMode → UInt32 → Except Fault GlobalOp
  | .get => getGlobal
  | .set => setGlobal
  | .exchange => exchangeGlobal

/-- The byte of a number that fits into one. -/
def narrow? (value : UInt32) : Option UInt8 :=
  if value ≤ 255 then some value.toUInt8 else none

/-- The check in two steps: first the range, and then a conversion that can fail. -/
def checkedThenNarrowed (a : Argument) : Except Fault (Option UInt8) :=
  if a.value < a.operand.low ∨ a.operand.high < a.value then .error a.fault
  else .ok (narrow? a.value)

/-- What is in range fits into a byte, so the conversion does not fail. -/
lemma checkedThenNarrowed_eq (a : Argument) :
    checkedThenNarrowed a = (checked a.operand a.value).map some := by
  rw [checkedThenNarrowed, a.checked_eq]
  have hrange : (a.value < a.operand.low ∨ a.operand.high < a.value) ↔ ¬a.InRange := by
    rw [Argument.InRange, not_and_or, UInt32.not_le, UInt32.not_le]
  by_cases ha : a.InRange
  · have hbyte : a.value ≤ 255 := UInt32.le_trans ha.2 a.operand.high_le
    rw [if_neg (mt hrange.mp (not_not.mpr ha)), if_pos ha, narrow?, if_pos hbyte]
    rfl
  · rw [if_pos (hrange.mpr ha), if_neg ha]
    rfl

end Build

namespace Request

/-- What the factory answers. -/
def outcome : Request → Except Fault Leaf
  | push slot => (Build.push slot).map .stack
  | pop slot => (Build.pop slot).map .stack
  | drop count => (Build.drop count).map .stack
  | swapTop slot => (Build.swapTop slot).map .stack
  | swap first second => (Build.swap first second).map .stack
  | pushBlock count slot => (Build.pushBlock count slot).outcome.map .stack
  | push2 first second => (Build.push2 first second).map .stack
  | push3 first second third => (Build.push3 first second third).map .stack
  | dropBelow dropped kept => (Build.dropBelow dropped kept).outcome.map .stack
  | reverse count offset => (Build.reverse count offset).map .stack
  | dup2 => .ok (.stack .dup2)
  | over2 => .ok (.stack .over2)
  | rot => .ok (.stack .rot)
  | rotBack => .ok (.stack .rotBack)
  | global mode index => (Build.accessGlobal mode index).map .global

def factory : Request → String
  | push _ => "make_push"
  | pop _ => "make_pop"
  | drop _ => "make_drop"
  | swapTop _ => "make_xchg_s"
  | swap _ _ => "make_xchg_s_s"
  | pushBlock _ _ => "make_blkpush"
  | push2 _ _ => "make_push2"
  | push3 _ _ _ => "make_push3"
  | dropBelow _ _ => "make_blkdrop2"
  | reverse _ _ => "make_reverse"
  | dup2 => "make_dup2"
  | over2 => "make_over2"
  | rot => "make_rot"
  | rotBack => "make_rotrev"
  | global .get _ => "make_get_glob"
  | global .set _ => "make_set_glob"
  | global .exchange _ => "make_exchange_glob"

/-- The arguments in the order of the factory's parameters, each with the range that is documented
for it. -/
def arguments (r : Request) : List Argument :=
  match r with
  | push slot => [⟨⟨r.factory, "index", 0, 255, by decide⟩, slot⟩]
  | pop slot => [⟨⟨r.factory, "index", 1, 255, by decide⟩, slot⟩]
  | drop count => [⟨⟨r.factory, "count", 1, 255, by decide⟩, count⟩]
  | swapTop slot => [⟨⟨r.factory, "index", 1, 255, by decide⟩, slot⟩]
  | swap first second =>
    [⟨⟨r.factory, "first index", 0, 255, by decide⟩, first⟩,
      ⟨⟨r.factory, "second index", 0, 255, by decide⟩, second⟩]
  | pushBlock count slot =>
    [⟨⟨r.factory, "qty", 1, 15, by decide⟩, count⟩, ⟨⟨r.factory, "index", 0, 15, by decide⟩, slot⟩]
  | push2 first second =>
    [⟨⟨r.factory, "first index", 0, 15, by decide⟩, first⟩,
      ⟨⟨r.factory, "second index", 0, 15, by decide⟩, second⟩]
  | push3 first second third =>
    [⟨⟨r.factory, "first index", 0, 15, by decide⟩, first⟩,
      ⟨⟨r.factory, "second index", 0, 15, by decide⟩, second⟩,
      ⟨⟨r.factory, "third index", 0, 15, by decide⟩, third⟩]
  | dropBelow dropped kept =>
    [⟨⟨r.factory, "dropped", 1, 15, by decide⟩, dropped⟩,
      ⟨⟨r.factory, "left", 0, 15, by decide⟩, kept⟩]
  | reverse count offset =>
    [⟨⟨r.factory, "count", 0, 255, by decide⟩, count⟩,
      ⟨⟨r.factory, "offset", 0, 255, by decide⟩, offset⟩]
  | dup2 | over2 | rot | rotBack => []
  | global _ index => [⟨⟨r.factory, "global index", 1, 254, by decide⟩, index⟩]

def Admitted (r : Request) : Prop := ∀ a ∈ r.arguments, a.InRange

/-- The shorter spelling, where there is one. -/
def normal : Request → Request
  | pushBlock count slot => if count = 1 then push slot else pushBlock count slot
  | dropBelow dropped kept => if dropped = 1 ∧ kept = 1 then pop 1 else dropBelow dropped kept
  | r => r

/-- The name of the instruction that is asked for. -/
def instruction : Request → String
  | push _ => "PushS"
  | pop _ => "PopS"
  | drop _ => "Drop"
  | swapTop _ => "XchgS0"
  | swap _ _ => "XchgSS"
  | pushBlock _ _ => "BlkPush"
  | push2 _ _ => "Push2S"
  | push3 _ _ _ => "Push3S"
  | dropBelow _ _ => "BlkDrop2"
  | reverse _ _ => "Reverse"
  | dup2 => "Dup2"
  | over2 => "Over2"
  | rot => "Rot"
  | rotBack => "RotRev"
  | global mode _ => mode.name

/-- The leaf is the instruction asked for and holds the numbers as they were given. A stack
instruction has three operands, zero where there is no number for it. -/
def IsHeldBy (r : Request) : Leaf → Prop
  | .stack op => op.name = r.instruction ∧
      [op.operands.1, op.operands.2.1, op.operands.2.2].map UInt8.toUInt32 =
        (r.arguments.map Argument.value).rightpad 3 0
  | .global g => g.mode.name = r.instruction ∧
      [g.index.toUInt32] = r.arguments.map Argument.value
  | _ => False

end Request

/-! ## What a factory does with its arguments -/

/-- The result is given if all arguments are in range, and else the first that is not is refused. -/
def answer {α : Type} : List Argument → α → Except Fault α
  | [], result => .ok result
  | a :: rest, result => if a.InRange then answer rest result else .error a.fault

section Answer

variable {α β : Type}

lemma answer_eq_ok_iff {arguments : List Argument} {result out : α} :
    answer arguments result = .ok out ↔ (∀ a ∈ arguments, a.InRange) ∧ result = out := by
  induction arguments with
  | nil => simp [answer]
  | cons a rest ih =>
    rw [answer, List.forall_mem_cons]
    by_cases ha : a.InRange
    · rw [if_pos ha, ih]
      simp only [ha, true_and]
    · rw [if_neg ha]
      simp only [ha, reduceCtorEq, false_and]

lemma answer_eq_error_iff {arguments : List Argument} {result : α} {fault : Fault} :
    answer arguments result = .error fault ↔
      ∃ passed refused rest, arguments = passed ++ refused :: rest ∧
        (∀ a ∈ passed, a.InRange) ∧ ¬refused.InRange ∧ fault = refused.fault := by
  induction arguments with
  | nil => simp [answer]
  | cons a rest ih =>
    rw [answer]
    by_cases ha : a.InRange
    · rw [if_pos ha, ih]
      constructor
      · rintro ⟨passed, refused, rest, rfl, hpassed, hrefused⟩
        exact ⟨a :: passed, refused, rest, rfl, List.forall_mem_cons.mpr ⟨ha, hpassed⟩, hrefused⟩
      · rintro ⟨passed, refused, rest, hsplit, hpassed, hrefused, hfault⟩
        cases passed with
        | nil =>
          obtain ⟨rfl, -⟩ := List.cons.inj hsplit
          exact absurd ha hrefused
        | cons first passed =>
          obtain ⟨rfl, rfl⟩ := List.cons.inj hsplit
          exact ⟨passed, refused, rest, rfl, (List.forall_mem_cons.mp hpassed).2, hrefused, hfault⟩
    · rw [if_neg ha]
      constructor
      · intro h
        exact ⟨[], a, rest, rfl, List.forall_mem_nil _, ha, (Except.error.inj h).symm⟩
      · rintro ⟨passed, refused, rest, hsplit, hpassed, -, rfl⟩
        cases passed with
        | nil =>
          obtain ⟨rfl, -⟩ := List.cons.inj hsplit
          rfl
        | cons first passed =>
          obtain ⟨rfl, -⟩ := List.cons.inj hsplit
          exact absurd (List.forall_mem_cons.mp hpassed).1 ha

lemma map_answer (f : α → β) (arguments : List Argument) (result : α) :
    (answer arguments result).map f = answer arguments (f result) := by
  induction arguments with
  | nil => rfl
  | cons a rest ih =>
    rw [answer, answer, ← ih]
    split <;> rfl

lemma map_eq_answer {f : α → β} {x : Except Fault α} {arguments : List Argument} {result : α}
    (h : x = answer arguments result) : x.map f = answer arguments (f result) := by
  rw [h, map_answer]

/-- The result does not matter where an argument is refused. -/
lemma answer_congr {arguments : List Argument} {result result' : α}
    (h : (∀ a ∈ arguments, a.InRange) → result = result') :
    answer arguments result = answer arguments result' := by
  induction arguments with
  | nil => rw [h (List.forall_mem_nil _)]
  | cons a rest ih =>
    rw [answer, answer]
    by_cases ha : a.InRange
    · rw [if_pos ha, if_pos ha]
      exact ih fun hrest => h (List.forall_mem_cons.mpr ⟨ha, hrest⟩)
    · rw [if_neg ha, if_neg ha]

/-- A factory checks one argument and goes on with its byte. -/
lemma checked_bind_eq_answer (a : Argument) {next : UInt8 → Except Fault α}
    {rest : List Argument} {result : α} (h : next a.value.toUInt8 = answer rest result) :
    (Build.checked a.operand a.value >>= next) = answer (a :: rest) result := by
  rw [Argument.checked_eq, answer, ← h]
  split <;> rfl

end Answer

namespace Request

/-- The instruction of a request, whose numbers are cut down to bytes. -/
def leaf : Request → Leaf
  | push slot => .stack (.push slot.toUInt8)
  | pop slot => .stack (.pop slot.toUInt8)
  | drop count => .stack (.drop count.toUInt8)
  | swapTop slot => .stack (.swapTop slot.toUInt8)
  | swap first second => .stack (.swap first.toUInt8 second.toUInt8)
  | pushBlock count slot => .stack (.pushBlock count.toUInt8 slot.toUInt8)
  | push2 first second => .stack (.push2 first.toUInt8 second.toUInt8)
  | push3 first second third => .stack (.push3 first.toUInt8 second.toUInt8 third.toUInt8)
  | dropBelow dropped kept => .stack (.dropBelow dropped.toUInt8 kept.toUInt8)
  | reverse count offset => .stack (.reverse count.toUInt8 offset.toUInt8)
  | dup2 => .stack .dup2
  | over2 => .stack .over2
  | rot => .stack .rot
  | rotBack => .stack .rotBack
  | global mode index => .global ⟨mode, index.toUInt8⟩

lemma outcome_pushBlock (count slot : UInt32) :
    (pushBlock count slot).outcome =
      answer (pushBlock count slot).arguments (pushBlock count slot).normal.leaf := by
  have hoperands : Build.blockOperands count slot =
      answer (pushBlock count slot).arguments (count.toUInt8, slot.toUInt8) :=
    checked_bind_eq_answer ⟨_, count⟩ (checked_bind_eq_answer ⟨_, slot⟩ rfl)
  have hpush : (Build.pushBlock count slot).outcome = (Build.blockOperands count slot).map
      fun o => if o.1 = 1 then .push o.2 else .pushBlock o.1 o.2 := by
    cases h : Build.blockOperands count slot with
    | error fault => rw [Build.pushBlock, h]; rfl
    | ok operands => exact Build.outcome_pushBlock h
  rw [outcome, hpush, hoperands, map_answer, map_answer]
  apply answer_congr
  intro h
  have hcount : count.toUInt8 = 1 ↔ count = 1 := (List.forall_mem_cons.mp h).1.toUInt8_eq_iff
  rw [normal]
  by_cases hone : count = 1
  · rw [if_pos hone, if_pos (hcount.mpr hone)]
    rfl
  · rw [if_neg hone, if_neg (mt hcount.mp hone)]
    rfl

lemma outcome_dropBelow (dropped kept : UInt32) :
    (dropBelow dropped kept).outcome =
      answer (dropBelow dropped kept).arguments (dropBelow dropped kept).normal.leaf := by
  have hoperands : Build.belowOperands dropped kept =
      answer (dropBelow dropped kept).arguments (dropped.toUInt8, kept.toUInt8) :=
    checked_bind_eq_answer ⟨_, dropped⟩ (checked_bind_eq_answer ⟨_, kept⟩ rfl)
  have hdrop : (Build.dropBelow dropped kept).outcome = (Build.belowOperands dropped kept).map
      fun o => if o.1 = 1 ∧ o.2 = 1 then .pop 1 else .dropBelow o.1 o.2 := by
    cases h : Build.belowOperands dropped kept with
    | error fault => rw [Build.dropBelow, h]; rfl
    | ok operands => exact Build.outcome_dropBelow h
  rw [outcome, hdrop, hoperands, map_answer, map_answer]
  apply answer_congr
  intro h
  obtain ⟨hdropped, hrest⟩ := List.forall_mem_cons.mp h
  have hkept := (List.forall_mem_cons.mp hrest).1
  have hboth : dropped.toUInt8 = 1 ∧ kept.toUInt8 = 1 ↔ dropped = 1 ∧ kept = 1 :=
    and_congr hdropped.toUInt8_eq_iff hkept.toUInt8_eq_iff
  rw [normal]
  by_cases hone : dropped = 1 ∧ kept = 1
  · rw [if_pos hone, if_pos (hboth.mpr hone)]
    rfl
  · rw [if_neg hone, if_neg (mt hboth.mp hone)]
    rfl

/-- A factory goes through its arguments in order and then gives the instruction, spelled short. -/
theorem outcome_eq_answer (r : Request) : r.outcome = answer r.arguments r.normal.leaf := by
  cases r with
  | push slot | pop slot | drop slot | swapTop slot =>
    exact map_eq_answer (checked_bind_eq_answer ⟨_, slot⟩ rfl)
  | swap first second | push2 first second | reverse first second =>
    exact map_eq_answer (checked_bind_eq_answer ⟨_, first⟩ (checked_bind_eq_answer ⟨_, second⟩ rfl))
  | push3 first second third =>
    exact map_eq_answer (checked_bind_eq_answer ⟨_, first⟩
      (checked_bind_eq_answer ⟨_, second⟩ (checked_bind_eq_answer ⟨_, third⟩ rfl)))
  | pushBlock count slot => exact outcome_pushBlock count slot
  | dropBelow dropped kept => exact outcome_dropBelow dropped kept
  | dup2 | over2 | rot | rotBack => rfl
  | global mode index =>
    cases mode with
    | get | set | exchange => exact map_eq_answer (checked_bind_eq_answer ⟨_, index⟩ rfl)

lemma outcome_eq_ok_iff {r : Request} {leaf : Leaf} :
    r.outcome = .ok leaf ↔ r.Admitted ∧ r.normal.leaf = leaf := by
  rw [outcome_eq_answer, answer_eq_ok_iff]
  rfl

/-- The shorter spelling has a wider range, so it is not refused. -/
lemma Admitted.normal {r : Request} (h : r.Admitted) : r.normal.Admitted := by
  cases r with
  | pushBlock count slot =>
    rw [Request.normal]
    by_cases hone : count = 1
    · have hslot := (List.forall_mem_cons.mp (List.forall_mem_cons.mp h).2).1
      have hwider : (15 : UInt32) ≤ 255 := by decide
      rw [if_pos hone]
      exact List.forall_mem_singleton.mpr ⟨hslot.1, UInt32.le_trans hslot.2 hwider⟩
    · rwa [if_neg hone]
  | dropBelow dropped kept =>
    rw [Request.normal]
    split
    · exact List.forall_mem_singleton.mpr (by decide)
    · exact h
  | push | pop | drop | swapTop | swap | push2 | push3 | reverse | dup2 | over2 | rot | rotBack
  | global => exact h

/-- In the range no number is cut down. -/
lemma Admitted.isHeldBy_leaf {r : Request} (h : r.Admitted) : r.IsHeldBy r.leaf := by
  have hbytes : r.arguments.map (fun a => a.value.toUInt8.toUInt32) =
      r.arguments.map Argument.value :=
    List.map_congr_left fun a ha => (h a ha).toUInt32_toUInt8
  cases r with
  | global mode index => exact ⟨rfl, hbytes⟩
  | push | pop | drop | swapTop | swap | pushBlock | push2 | push3 | dropBelow | reverse | dup2
  | over2 | rot | rotBack => exact ⟨rfl, congrArg (List.rightpad 3 0) hbytes⟩

lemma built_of_map_eq_ok {x : Except Fault StackOp} {leaf : Leaf} (h : x.map .stack = .ok leaf)
    (hbuilt : ∀ {op : StackOp}, x = .ok op → Leaf.Built (.stack op)) : leaf.Built := by
  obtain ⟨op, hop, rfl⟩ := Fault.map_eq_ok_iff.mp h
  exact hbuilt hop

lemma built_of_outcome {r : Request} {leaf : Leaf} (h : r.outcome = .ok leaf) : leaf.Built := by
  cases r with
  | push slot => exact built_of_map_eq_ok h .push
  | pop slot => exact built_of_map_eq_ok h .pop
  | drop count => exact built_of_map_eq_ok h .drop
  | swapTop slot => exact built_of_map_eq_ok h .swapTop
  | swap first second => exact built_of_map_eq_ok h .swap
  | pushBlock count slot => exact built_of_map_eq_ok h .pushBlock
  | push2 first second => exact built_of_map_eq_ok h .push2
  | push3 first second third => exact built_of_map_eq_ok h .push3
  | dropBelow dropped kept => exact built_of_map_eq_ok h .dropBelow
  | reverse count offset => exact built_of_map_eq_ok h .reverse
  | dup2 => obtain rfl := Except.ok.inj h; exact .dup2
  | over2 => obtain rfl := Except.ok.inj h; exact .over2
  | rot => obtain rfl := Except.ok.inj h; exact .rot
  | rotBack => obtain rfl := Except.ok.inj h; exact .rotBack
  | global mode index =>
    obtain ⟨op, hop, rfl⟩ := Fault.map_eq_ok_iff.mp h
    cases mode with
    | get => exact .getGlobal hop
    | set => exact .setGlobal hop
    | exchange => exact .exchangeGlobal hop

lemma exists_outcome_of_built {op : StackOp} (h : Leaf.Built (.stack op)) :
    ∃ r : Request, r.outcome = .ok (.stack op) := by
  cases h with
  | push h => exact ⟨push _, Fault.map_eq_ok_iff.mpr ⟨op, h, rfl⟩⟩
  | pop h => exact ⟨pop _, Fault.map_eq_ok_iff.mpr ⟨op, h, rfl⟩⟩
  | drop h => exact ⟨drop _, Fault.map_eq_ok_iff.mpr ⟨op, h, rfl⟩⟩
  | swapTop h => exact ⟨swapTop _, Fault.map_eq_ok_iff.mpr ⟨op, h, rfl⟩⟩
  | swap h => exact ⟨swap _ _, Fault.map_eq_ok_iff.mpr ⟨op, h, rfl⟩⟩
  | pushBlock h => exact ⟨pushBlock _ _, Fault.map_eq_ok_iff.mpr ⟨op, h, rfl⟩⟩
  | push2 h => exact ⟨push2 _ _, Fault.map_eq_ok_iff.mpr ⟨op, h, rfl⟩⟩
  | push3 h => exact ⟨push3 _ _ _, Fault.map_eq_ok_iff.mpr ⟨op, h, rfl⟩⟩
  | dropBelow h => exact ⟨dropBelow _ _, Fault.map_eq_ok_iff.mpr ⟨op, h, rfl⟩⟩
  | reverse h => exact ⟨reverse _ _, Fault.map_eq_ok_iff.mpr ⟨op, h, rfl⟩⟩
  | dup2 => exact ⟨dup2, rfl⟩
  | over2 => exact ⟨over2, rfl⟩
  | rot => exact ⟨rot, rfl⟩
  | rotBack => exact ⟨rotBack, rfl⟩

theorem outcome_eq_stack_iff {op : StackOp} :
    (∃ r : Request, r.outcome = .ok (.stack op)) ↔ op.Encodable := by
  rw [← Leaf.built_stack_iff]
  constructor
  · rintro ⟨r, h⟩
    exact built_of_outcome h
  · exact exists_outcome_of_built

theorem outcome_eq_global_iff {g : GlobalOp} :
    (∃ r : Request, r.outcome = .ok (.global g)) ↔ 1 ≤ g.index.toNat ∧ g.index.toNat ≤ 254 := by
  have hrange : (global g.mode g.index.toUInt32).Admitted ↔
      1 ≤ g.index.toNat ∧ g.index.toNat ≤ 254 := by
    unfold Admitted arguments Argument.InRange
    rw [List.forall_mem_singleton, UInt32.le_iff_toNat_le, UInt32.le_iff_toNat_le,
      UInt8.toNat_toUInt32]
    rfl
  rw [← hrange]
  constructor
  · rintro ⟨r, h⟩
    obtain ⟨hadmitted, hleaf⟩ := outcome_eq_ok_iff.mp h
    have hnormal := hadmitted.normal
    cases hr : r.normal with
    | global mode index =>
      rw [hr] at hnormal hleaf
      obtain rfl := Leaf.global.inj hleaf
      rwa [(List.forall_mem_singleton.mp hnormal).toUInt32_toUInt8]
    | push | pop | drop | swapTop | swap | pushBlock | push2 | push3 | dropBelow | reverse | dup2
    | over2 | rot | rotBack =>
      rw [hr] at hleaf
      cases hleaf
  · intro h
    refine ⟨global g.mode g.index.toUInt32, outcome_eq_ok_iff.mpr ⟨h, ?_⟩⟩
    exact congrArg (fun byte => Leaf.global ⟨g.mode, byte⟩) (UInt8.toUInt8_toUInt32 g.index)

lemma normal_normal (r : Request) : r.normal.normal = r.normal := by
  cases r with
  | pushBlock count slot =>
    by_cases hone : count = 1
    · simp only [normal, if_pos hone]
    · simp only [normal, if_neg hone]
  | dropBelow dropped kept =>
    by_cases hone : dropped = 1 ∧ kept = 1
    · simp only [normal, if_pos hone]
    · simp only [normal, if_neg hone]
  | push | pop | drop | swapTop | swap | push2 | push3 | reverse | dup2 | over2 | rot | rotBack
  | global => rfl

lemma factory_of_mem_arguments {r : Request} {a : Argument} (h : a ∈ r.arguments) :
    a.operand.factory = r.factory := by
  have hall : r.arguments.map (fun a => a.operand.factory) =
      List.replicate r.arguments.length r.factory := by
    cases r <;> rfl
  exact List.eq_of_mem_replicate (hall ▸ List.mem_map_of_mem h)

/-- A factory gives an instruction just in case all its numbers are in range, namely the one that
holds them unchanged, in the shorter of two spellings; that is what the factory of the shorter
spelling gives as well. Otherwise it names itself and the first number that is out of range, with
the range. All requests together give the encodable stack instructions, and the global instructions
but for the two indices that are not in range. A factory is not refused by the one that it calls for
a shorter spelling, and no number that passes its check is too large for a byte. -/
theorem answered_exactly :
    (∀ r : Request,
      ((∃ leaf, r.outcome = .ok leaf) ↔ ∀ a ∈ r.arguments, a.InRange) ∧
      (∀ leaf, r.outcome = .ok leaf → r.normal.IsHeldBy leaf ∧ r.normal.outcome = .ok leaf) ∧
      (∀ fault, r.outcome = .error fault →
        ∃ passed refused rest, r.arguments = passed ++ refused :: rest ∧
          (∀ a ∈ passed, a.InRange) ∧ ¬refused.InRange ∧
          fault.isUnresolvable = false ∧ fault.construct = r.factory ∧
          fault.detail = refused.operand.name ++ " " ++ Text.decimal refused.value.toNat ++
            " outside [" ++ Text.decimal refused.operand.low.toNat ++ ", " ++
            Text.decimal refused.operand.high.toNat ++ "]")) ∧
    (∀ op : StackOp, (∃ r : Request, r.outcome = .ok (.stack op)) ↔ op.Encodable) ∧
    (∀ g : GlobalOp, (∃ r : Request, r.outcome = .ok (.global g)) ↔
      1 ≤ g.index.toNat ∧ g.index.toNat ≤ 254) ∧
    (∀ slot : UInt8, Build.push slot.toUInt32 = .ok (.push slot)) ∧
    Build.pop 1 = .ok (.pop 1) ∧
    (∀ a : Argument,
      Build.checkedThenNarrowed a = (Build.checked a.operand a.value).map some) := by
  refine ⟨fun r => ⟨?_, fun leaf h => ?_, fun fault h => ?_⟩, fun op => outcome_eq_stack_iff,
    fun g => outcome_eq_global_iff, fun slot => ?_, rfl, Build.checkedThenNarrowed_eq⟩
  · simp only [outcome_eq_ok_iff, exists_and_left, exists_eq', and_true]
    rfl
  · obtain ⟨hadmitted, rfl⟩ := outcome_eq_ok_iff.mp h
    refine ⟨hadmitted.normal.isHeldBy_leaf, outcome_eq_ok_iff.mpr ⟨hadmitted.normal, ?_⟩⟩
    rw [normal_normal]
  · rw [outcome_eq_answer, answer_eq_error_iff] at h
    obtain ⟨passed, refused, rest, hsplit, hpassed, hrefused, rfl⟩ := h
    have hmem : refused ∈ r.arguments := by
      rw [hsplit]
      simp
    exact ⟨passed, refused, rest, hsplit, hpassed, hrefused, rfl, factory_of_mem_arguments hmem,
      rfl⟩
  · exact Build.checked_bind_toUInt32 (Nat.zero_le _) (Build.byte_le_maxSlot slot)

example : (push3 3 16 99).outcome =
    .error (.outOfRange ⟨"make_push3", "second index", 0, 15, by decide⟩ 16) := rfl

end Request

end TvmAssembly
