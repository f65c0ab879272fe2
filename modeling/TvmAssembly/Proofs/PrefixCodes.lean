import Mathlib.Tactic.Lemma
import TvmAssembly.Identity.Preimage

/-!
# Pieces of an identity's byte string

Each piece that a preimage is put together from can be read back from the front of a longer string:
if two strings start with a piece of one sort, the pieces agree and so do the rests. A length is
written as a word, so a text has to be shorter than 2^32 bytes.
-/

namespace TvmAssembly.Identity

open Bytes

/-- The bytes of a word are its digits to base 256. -/
lemma toNat_ofWord (w : UInt32) :
    w.toUInt8.toNat + 256 * (w >>> 8).toUInt8.toNat + 65536 * (w >>> 16).toUInt8.toNat +
      16777216 * (w >>> 24).toUInt8.toNat = w.toNat := by
  have hw := w.toNat_lt
  have h8 : (8 : UInt32).toNat % 32 = 8 := rfl
  have h16 : (16 : UInt32).toNat % 32 = 16 := rfl
  have h24 : (24 : UInt32).toNat % 32 = 24 := rfl
  simp only [UInt32.toNat_toUInt8, UInt32.toNat_shiftRight, h8, h16, h24,
    Nat.shiftRight_eq_div_pow]
  omega

lemma ofWord_append_inj {v w : UInt32} {r s : Bytes} (h : ofWord v ++ r = ofWord w ++ s) :
    v = w ∧ r = s := by
  obtain ⟨hword, hrest⟩ := List.append_inj h rfl
  simp only [ofWord, List.cons.injEq, and_true] at hword
  obtain ⟨h0, h1, h2, h3⟩ := hword
  refine ⟨UInt32.toNat_inj.1 ?_, hrest⟩
  rw [← toNat_ofWord v, ← toNat_ofWord w, h0, h1, h2, h3]

lemma ofBool_append_inj {a b : Bool} {r s : Bytes} (h : ofBool a ++ r = ofBool b ++ s) :
    a = b ∧ r = s := by
  cases a <;> cases b
  · exact ⟨rfl, List.tail_eq_of_cons_eq h⟩
  · simp [ofBool] at h
  · simp [ofBool] at h
  · exact ⟨rfl, List.tail_eq_of_cons_eq h⟩

lemma size_append_inj {m n : Nat} {r s : Bytes} (hm : m < UInt32.size) (hn : n < UInt32.size)
    (h : size m ++ r = size n ++ s) : m = n ∧ r = s := by
  obtain ⟨hword, hrest⟩ := ofWord_append_inj h
  have hnat := congrArg UInt32.toNat hword
  rw [UInt32.toNat_ofNat_of_lt' hm, UInt32.toNat_ofNat_of_lt' hn] at hnat
  exact ⟨hnat, hrest⟩

lemma text_append_inj {a b : String} {r s : Bytes} (ha : a.utf8ByteSize < UInt32.size)
    (hb : b.utf8ByteSize < UInt32.size) (h : text a ++ r = text b ++ s) : a = b ∧ r = s := by
  simp only [text, List.append_assoc] at h
  obtain ⟨hsize, h⟩ := size_append_inj ha hb h
  obtain ⟨htext, hrest⟩ := List.append_inj h hsize
  exact ⟨ofText_inj.1 htext, hrest⟩

/-- Lists of texts of one length, whose count was written before. -/
lemma texts_append_inj {as bs : List String} {r s : Bytes}
    (ha : ∀ a ∈ as, a.utf8ByteSize < UInt32.size) (hb : ∀ b ∈ bs, b.utf8ByteSize < UInt32.size)
    (hlen : as.length = bs.length) (h : as.flatMap text ++ r = bs.flatMap text ++ s) :
    as = bs ∧ r = s := by
  induction as generalizing bs with
  | nil =>
    obtain rfl := List.length_eq_zero_iff.1 hlen.symm
    exact ⟨rfl, h⟩
  | cons a as ih =>
    cases bs with
    | nil => simp at hlen
    | cons b bs =>
      rw [List.forall_mem_cons] at ha hb
      simp only [List.flatMap_cons, List.append_assoc] at h
      obtain ⟨rfl, htail⟩ := text_append_inj ha.1 hb.1 h
      obtain ⟨rfl, hrest⟩ := ih ha.2 hb.2 (Nat.succ.inj hlen) htail
      exact ⟨rfl, hrest⟩

lemma optional_append_inj {a b : Option String} {r s : Bytes}
    (ha : ∀ t, a = some t → t.utf8ByteSize < UInt32.size)
    (hb : ∀ t, b = some t → t.utf8ByteSize < UInt32.size) (h : optional a ++ r = optional b ++ s) :
    a = b ∧ r = s := by
  cases a with
  | none =>
    cases b with
    | none => exact ⟨rfl, by simpa [optional] using h⟩
    | some b => simp [optional] at h
  | some a =>
    cases b with
    | none => simp [optional] at h
    | some b =>
      simp only [optional, List.cons_append, List.cons.injEq, true_and] at h
      obtain ⟨rfl, hrest⟩ := text_append_inj (ha a rfl) (hb b rfl) h
      exact ⟨rfl, hrest⟩

lemma effect_append_inj {a b : StackEffect} {r s : Bytes} (h : effect a ++ r = effect b ++ s) :
    a = b ∧ r = s := by
  obtain ⟨take, ret⟩ := a
  obtain ⟨take', ret'⟩ := b
  simp only [effect, List.append_assoc] at h
  obtain ⟨rfl, hret⟩ := ofWord_append_inj h
  obtain ⟨rfl, hrest⟩ := ofWord_append_inj hret
  exact ⟨rfl, hrest⟩

lemma signature_append_inj {a b : Signature} {r s : Bytes}
    (h : signature a ++ r = signature b ++ s) : a = b ∧ r = s := by
  obtain ⟨e, isPure⟩ := a
  obtain ⟨e', isPure'⟩ := b
  simp only [signature, List.append_assoc] at h
  obtain ⟨rfl, hpure⟩ := effect_append_inj h
  obtain ⟨rfl, hrest⟩ := ofBool_append_inj hpure
  exact ⟨rfl, hrest⟩

/-- A kind is told from its position if the list of all kinds has it there. -/
lemma eq_of_position_eq {κ : Type} (index : κ → Nat) (all : List κ)
    (hall : ∀ k, all[(position (index k)).toNat]? = some k) {k l : κ}
    (h : position (index k) = position (index l)) : k = l := by
  have hk := hall k
  rw [h, hall l] at hk
  exact (Option.some.inj hk).symm

lemma frame_eq_of_position {f g : Frame} (h : position f.index = position g.index) : f = g :=
  eq_of_position_eq Frame.index Frame.all (fun k => by cases k <;> rfl) h

lemma conditionalKind_eq_of_position {k l : ConditionalKind}
    (h : position k.index = position l.index) : k = l :=
  eq_of_position_eq ConditionalKind.index ConditionalKind.all (fun k => by cases k <;> rfl) h

lemma repeatKind_eq_of_position {k l : RepeatKind} (h : position k.index = position l.index) :
    k = l :=
  eq_of_position_eq RepeatKind.index RepeatKind.all (fun k => by cases k <;> rfl) h

lemma dataKind_eq_of_position {k l : DataKind} (h : position k.index = position l.index) : k = l :=
  eq_of_position_eq DataKind.index DataKind.all (fun k => by cases k <;> rfl) h

lemma functionKind_eq_of_position {k l : FunctionKind}
    (h : position k.index = position l.index) : k = l :=
  eq_of_position_eq FunctionKind.index FunctionKind.all (fun k => by cases k <;> rfl) h

lemma globalMode_eq_of_position {m n : GlobalMode} (h : position m.index = position n.index) :
    m = n :=
  eq_of_position_eq GlobalMode.index [.get, .set, .exchange] (fun k => by cases k <;> rfl) h

/-- Of a stack instruction all three operand bytes are written, used or not. -/
lemma stackOp_eq_of_position {a b : StackOp} (hindex : position a.index = position b.index)
    (hoperands : a.operands = b.operands) : a = b := by
  have hlt (op : StackOp) : op.index < 256 := by
    cases op <;> simp [StackOp.index, StackOp.ctorIdx]
  have hnat := congrArg UInt8.toNat hindex
  rw [position, position, UInt8.toNat_ofNat_of_lt' (hlt a), UInt8.toNat_ofNat_of_lt' (hlt b)] at hnat
  exact StackOp.eq_of_index_of_operands hnat hoperands

end TvmAssembly.Identity
