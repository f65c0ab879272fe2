import Mathlib.Data.Nat.Notation
import Mathlib.Tactic.Lemma
import TvmAssembly.Handoff.Compact
import TvmAssembly.Handoff.Tree
import TvmAssembly.Proofs.PrefixCodes

/-!
# Reading the compact format back

Compact data does not say what it is: a text and a list may have the same bytes. But two data that
are made alike (`Datum.Alike`) can be told apart, and the end of each of them can be told too
(`Datum.compact_append_inj`). Any two trees of one type give data that are made alike, and different
trees give different data. So no part of a tree is lost in its bytes, and trees that follow each
other with nothing in between can be taken apart again (`Lossless`).
-/

namespace TvmAssembly

/-! ## Numbers to base 128 -/

lemma varint_of_lt {n : ℕ} (h : n < 128) : varint n = [UInt8.ofNat n] := by
  rw [varint, if_pos h]

lemma varint_of_le {n : ℕ} (h : 128 ≤ n) :
    varint n = UInt8.ofNat (n % 128 + 128) :: varint (n / 128) := by
  rw [varint, if_neg (by omega)]

lemma varint_ne_nil (n : ℕ) : varint n ≠ [] := by
  rw [varint]
  split <;> exact List.cons_ne_nil _ _

lemma Bytes.ofNat_inj_of_lt {m n : ℕ} (hm : m < 256) (hn : n < 256)
    (h : UInt8.ofNat m = UInt8.ofNat n) : m = n := by
  have hnat := congrArg UInt8.toNat h
  rwa [UInt8.toNat_ofNat_of_lt' hm, UInt8.toNat_ofNat_of_lt' hn] at hnat

/-- Only the last digit is below 128, which tells where a number ends. -/
lemma varint_append_inj {m n : ℕ} {r s : Bytes} (h : varint m ++ r = varint n ++ s) :
    m = n ∧ r = s := by
  induction m using Nat.strongRecOn generalizing n with
  | ind m ih =>
    rcases Nat.lt_or_ge m 128 with hm | hm <;> rcases Nat.lt_or_ge n 128 with hn | hn
    · rw [varint_of_lt hm, varint_of_lt hn] at h
      obtain ⟨hdigit, hrest⟩ := List.cons.inj h
      exact ⟨Bytes.ofNat_inj_of_lt (by omega) (by omega) hdigit, hrest⟩
    · rw [varint_of_lt hm, varint_of_le hn] at h
      have hdigit := Bytes.ofNat_inj_of_lt (by omega) (by omega) (List.cons.inj h).1
      omega
    · rw [varint_of_le hm, varint_of_lt hn] at h
      have hdigit := Bytes.ofNat_inj_of_lt (by omega) (by omega) (List.cons.inj h).1
      omega
    · rw [varint_of_le hm, varint_of_le hn] at h
      obtain ⟨hdigit, htail⟩ := List.cons.inj h
      have hlow := Bytes.ofNat_inj_of_lt (by omega) (by omega) hdigit
      obtain ⟨hhigh, hrest⟩ := ih (m / 128) (by omega) htail
      exact ⟨by omega, hrest⟩

/-! ## Data that are made alike -/

mutual

/-- Data of one type: the same parts under the same names. Choices that differ may hold anything. -/
def Datum.Alike : Datum → Datum → Prop
  | .flag _, .flag _ => True
  | .byte _, .byte _ => True
  | .word _, .word _ => True
  | .text _, .text _ => True
  | .absent, .absent => True
  | .absent, .present _ => True
  | .present _, .absent => True
  | .present d, .present e => d.Alike e
  | .list ds, .list es => itemsAlike ds es
  | .record fs, .record gs => fieldsAlike fs gs
  | .choice i n, .choice j m => i = j → n = m
  | .tagged i n d, .tagged j m e => i = j → n = m ∧ d.Alike e
  | _, _ => False
  termination_by structural d => d

def Field.Alike : Field → Field → Prop
  | ⟨n, d⟩, ⟨m, e⟩ => n = m ∧ d.Alike e
  termination_by structural f => f

/-- Lists may differ in length. -/
def itemsAlike : List Datum → List Datum → Prop
  | d :: ds, e :: es => d.Alike e ∧ itemsAlike ds es
  | [], _ => True
  | _ :: _, [] => True
  termination_by structural ds => ds

def fieldsAlike : List Field → List Field → Prop
  | [], [] => True
  | f :: fs, g :: gs => f.Alike g ∧ fieldsAlike fs gs
  | _, _ => False
  termination_by structural fs => fs

end

lemma Datum.compact_text_append_inj {a b : String} {r s : Bytes}
    (h : (Datum.text a).compact ++ r = (Datum.text b).compact ++ s) : a = b ∧ r = s := by
  simp only [Datum.compact, List.append_assoc] at h
  obtain ⟨hsize, htail⟩ := varint_append_inj h
  obtain ⟨htext, hrest⟩ := List.append_inj htail hsize
  exact ⟨Bytes.ofText_inj.mp htext, hrest⟩

mutual

theorem Datum.compact_append_inj {r s : Bytes} : (d e : Datum) → d.Alike e →
    d.compact ++ r = e.compact ++ s → d = e ∧ r = s
  | .flag a, e, hd, h => by
    cases e with
    | flag b =>
      obtain ⟨rfl, hrest⟩ := Identity.ofBool_append_inj h
      exact ⟨rfl, hrest⟩
    | _ => exact hd.elim
  | .byte a, e, hd, h => by
    cases e with
    | byte b =>
      obtain ⟨rfl, hrest⟩ := List.cons.inj h
      exact ⟨rfl, hrest⟩
    | _ => exact hd.elim
  | .word a, e, hd, h => by
    cases e with
    | word b =>
      obtain ⟨hnat, hrest⟩ := varint_append_inj h
      exact ⟨congrArg Datum.word (UInt32.toNat_inj.mp hnat), hrest⟩
    | _ => exact hd.elim
  | .text a, e, hd, h => by
    cases e with
    | text b =>
      obtain ⟨rfl, hrest⟩ := Datum.compact_text_append_inj h
      exact ⟨rfl, hrest⟩
    | _ => exact hd.elim
  | .absent, e, hd, h => by
    cases e with
    | absent => exact ⟨rfl, (List.cons.inj h).2⟩
    | present e => exact absurd (List.cons.inj h).1 (by decide)
    | _ => exact hd.elim
  | .present d, e, hd, h => by
    cases e with
    | absent => exact absurd (List.cons.inj h).1 (by decide)
    | present e =>
      obtain ⟨rfl, hrest⟩ := Datum.compact_append_inj d e hd (List.cons.inj h).2
      exact ⟨rfl, hrest⟩
    | _ => exact hd.elim
  | .list ds, e, hd, h => by
    cases e with
    | list es =>
      simp only [Datum.compact, List.append_assoc] at h
      obtain ⟨hlength, hitems⟩ := varint_append_inj h
      obtain ⟨rfl, hrest⟩ := compactItems_append_inj ds es hd hlength hitems
      exact ⟨rfl, hrest⟩
    | _ => exact hd.elim
  | .record fs, e, hd, h => by
    cases e with
    | record gs =>
      obtain ⟨rfl, hrest⟩ := compactFields_append_inj fs gs hd h
      exact ⟨rfl, hrest⟩
    | _ => exact hd.elim
  | .choice i n, e, hd, h => by
    cases e with
    | choice j m =>
      obtain ⟨rfl, hrest⟩ := varint_append_inj h
      obtain rfl : n = m := hd rfl
      exact ⟨rfl, hrest⟩
    | _ => exact hd.elim
  | .tagged i n d, e, hd, h => by
    cases e with
    | tagged j m e =>
      simp only [Datum.compact, List.append_assoc] at h
      obtain ⟨rfl, hcontent⟩ := varint_append_inj h
      obtain ⟨rfl, hde⟩ := hd rfl
      obtain ⟨rfl, hrest⟩ := Datum.compact_append_inj d e hde hcontent
      exact ⟨rfl, hrest⟩
    | _ => exact hd.elim
  termination_by structural d => d

theorem Field.compact_append_inj {r s : Bytes} : (f g : Field) → f.Alike g →
    f.compact ++ r = g.compact ++ s → f = g ∧ r = s
  | ⟨_, d⟩, ⟨_, e⟩, ⟨hname, hd⟩, h => by
    obtain ⟨rfl, hrest⟩ := Datum.compact_append_inj d e hd h
    exact ⟨by rw [hname], hrest⟩
  termination_by structural f => f

/-- How many items there are was written before them. -/
theorem compactItems_append_inj {r s : Bytes} : (ds es : List Datum) → itemsAlike ds es →
    ds.length = es.length → compactItems ds ++ r = compactItems es ++ s → ds = es ∧ r = s
  | [], [], _, _, h => ⟨rfl, h⟩
  | [], _ :: _, _, hlength, _ => by cases hlength
  | _ :: _, [], _, hlength, _ => by cases hlength
  | d :: ds, e :: es, ⟨hd, hds⟩, hlength, h => by
    simp only [compactItems, List.append_assoc] at h
    obtain ⟨rfl, htail⟩ := Datum.compact_append_inj d e hd h
    obtain ⟨rfl, hrest⟩ := compactItems_append_inj ds es hds (Nat.succ.inj hlength) htail
    exact ⟨rfl, hrest⟩
  termination_by structural ds => ds

theorem compactFields_append_inj {r s : Bytes} : (fs gs : List Field) → fieldsAlike fs gs →
    compactFields fs ++ r = compactFields gs ++ s → fs = gs ∧ r = s
  | [], [], _, h => ⟨rfl, h⟩
  | [], _ :: _, hfs, _ => hfs.elim
  | _ :: _, [], hfs, _ => hfs.elim
  | f :: fs, g :: gs, ⟨hf, hfs⟩, h => by
    simp only [compactFields, List.append_assoc] at h
    obtain ⟨rfl, htail⟩ := Field.compact_append_inj f g hf h
    obtain ⟨rfl, hrest⟩ := compactFields_append_inj fs gs hfs htail
    exact ⟨rfl, hrest⟩
  termination_by structural fs => fs

end

/-! ## Trees give data that are made alike, and different trees different data -/

section Choices

variable {κ : Type} {index : κ → ℕ} {name : κ → String}

/-- A position stands for one name. -/
lemma Datum.choice_alike
    (hindex : ∀ k l, Identity.position (index k) = Identity.position (index l) → k = l) (k l : κ) :
    (Datum.choice (index k) (name k)).Alike (.choice (index l) (name l)) := by
  intro h
  rw [hindex k l (congrArg Identity.position h)]

lemma Datum.choice_inj
    (hindex : ∀ k l, Identity.position (index k) = Identity.position (index l) → k = l) {k l : κ}
    (h : Datum.choice (index k) (name k) = .choice (index l) (name l)) : k = l :=
  hindex k l (congrArg Identity.position (Datum.choice.inj h).1)

end Choices

lemma Datum.text_injective : Function.Injective Datum.text := fun _ _ => Datum.text.inj

lemma Datum.optional_text_alike (a b : Option String) :
    (Datum.optional .text a).Alike (.optional .text b) := by
  cases a <;> cases b <;> trivial

lemma Datum.optional_text_inj {a b : Option String}
    (h : Datum.optional .text a = .optional .text b) : a = b := by
  cases a <;> cases b <;> simp_all [Datum.optional]

lemma fieldsAlike_append {as bs cs ds : List Field} (h : fieldsAlike as bs)
    (h' : fieldsAlike cs ds) : fieldsAlike (as ++ cs) (bs ++ ds) := by
  induction as generalizing bs with
  | nil =>
    cases bs with
    | nil => exact h'
    | cons b bs => exact h.elim
  | cons a as ih =>
    cases bs with
    | nil => exact h.elim
    | cons b bs => exact ⟨h.1, ih h.2⟩

lemma StackEffect.fields_alike (e f : StackEffect) : fieldsAlike e.fields f.fields :=
  ⟨⟨rfl, trivial⟩, ⟨rfl, trivial⟩, trivial⟩

lemma Signature.fields_alike (s t : Signature) : fieldsAlike s.fields t.fields :=
  fieldsAlike_append (s.effect.fields_alike t.effect) ⟨⟨rfl, trivial⟩, trivial⟩

lemma Mnemonic.fields_alike (m n : Mnemonic) : fieldsAlike m.fields n.fields :=
  ⟨⟨rfl, trivial⟩, ⟨rfl, Datum.optional_text_alike _ _⟩, ⟨rfl, Datum.optional_text_alike _ _⟩,
    trivial⟩

lemma StackOp.name_eq_of_index_eq {a b : StackOp} (h : a.index = b.index) : a.name = b.name := by
  revert h
  cases a <;> cases b <;> simp [index, name, StackOp.ctorIdx]

lemma StackOp.datum_alike (a b : StackOp) : a.datum.Alike b.datum :=
  ⟨⟨rfl, name_eq_of_index_eq⟩, ⟨rfl, trivial⟩, ⟨rfl, trivial⟩, ⟨rfl, trivial⟩, trivial⟩

lemma itemsAlike_map {α : Type} {datum : α → Datum}
    (h : ∀ a b, (datum a).Alike (datum b)) (as bs : List α) :
    itemsAlike (as.map datum) (bs.map datum) := by
  induction as generalizing bs with
  | nil => cases bs <;> trivial
  | cons a as ih =>
    cases bs with
    | nil => trivial
    | cons b bs => exact ⟨h a b, ih bs⟩

lemma itemsAlike_texts (as bs : List String) :
    itemsAlike (as.map Datum.text) (bs.map Datum.text) := by
  have htext : ∀ a b : String, (Datum.text a).Alike (.text b) := fun _ _ => trivial
  exact itemsAlike_map htext as bs

lemma Leaf.datum_alike (l m : Leaf) : l.datum.Alike m.datum := by
  cases l with
  | location l =>
    cases m with
    | location m => exact fun _ => ⟨rfl, ⟨rfl, trivial⟩, ⟨rfl, trivial⟩, trivial⟩
    | _ => exact nofun
  | stack a =>
    cases m with
    | stack b => exact fun _ => ⟨rfl, a.datum_alike b⟩
    | _ => exact nofun
  | global a =>
    cases m with
    | global b =>
      have hmode : a.mode.datum.Alike b.mode.datum :=
        Datum.choice_alike (fun _ _ => Identity.globalMode_eq_of_position) a.mode b.mode
      exact fun _ => ⟨rfl, ⟨rfl, hmode⟩, ⟨rfl, trivial⟩, trivial⟩
    | _ => exact nofun
  | instruction i =>
    cases m with
    | instruction j =>
      exact fun _ => ⟨rfl, fieldsAlike_append (i.line.fields_alike j.line)
        (i.signature.fields_alike j.signature)⟩
    | _ => exact nofun
  | verbatim v =>
    cases m with
    | verbatim w =>
      exact fun _ => ⟨rfl, ⟨rfl, itemsAlike_texts v.lines w.lines⟩,
        v.signature.fields_alike w.signature⟩
    | _ => exact nofun
  | exit e =>
    cases m with
    | exit f =>
      exact fun _ => ⟨rfl, fieldsAlike_append (e.line.fields_alike f.line)
        (e.effect.fields_alike f.effect)⟩
    | _ => exact nofun

mutual

theorem Node.datum_alike : (n m : Node) → n.datum.Alike m.datum
  | .leaf l, m => by
    cases m with
    | leaf l' => exact l.datum_alike l'
    | _ => cases l <;> exact nofun
  | .sealed b s, m => by
    cases m with
    | leaf l => cases l <;> exact nofun
    | sealed b' s' => exact fun _ => ⟨rfl, ⟨rfl, Block.datum_alike b b'⟩, s.fields_alike s'⟩
    | _ => exact nofun
  | .data k t c, m => by
    cases m with
    | leaf l => cases l <;> exact nofun
    | data k' t' c' =>
      have hkind : k.datum.Alike k'.datum :=
        Datum.choice_alike (fun _ _ => Identity.dataKind_eq_of_position) k k'
      exact fun _ =>
        ⟨rfl, ⟨rfl, hkind⟩, ⟨rfl, trivial⟩, ⟨rfl, childDatum_alike c c'⟩, trivial⟩
    | _ => exact nofun
  | .block b, m => by
    cases m with
    | leaf l => cases l <;> exact nofun
    | block b' => exact fun _ => ⟨rfl, Block.datum_alike b b'⟩
    | _ => exact nofun
  | .conditional k t f, m => by
    cases m with
    | leaf l => cases l <;> exact nofun
    | conditional k' t' f' =>
      have hkind : k.datum.Alike k'.datum :=
        Datum.choice_alike (fun _ _ => Identity.conditionalKind_eq_of_position) k k'
      exact fun _ =>
        ⟨rfl, ⟨rfl, hkind⟩, ⟨rfl, Block.datum_alike t t'⟩, ⟨rfl, childDatum_alike f f'⟩, trivial⟩
    | _ => exact nofun
  | .repeatLoop k b, m => by
    cases m with
    | leaf l => cases l <;> exact nofun
    | repeatLoop k' b' =>
      have hkind : k.datum.Alike k'.datum :=
        Datum.choice_alike (fun _ _ => Identity.repeatKind_eq_of_position) k k'
      exact fun _ => ⟨rfl, ⟨rfl, hkind⟩, ⟨rfl, Block.datum_alike b b'⟩, trivial⟩
    | _ => exact nofun
  | .whileLoop c b p, m => by
    cases m with
    | leaf l => cases l <;> exact nofun
    | whileLoop c' b' p' =>
      exact fun _ =>
        ⟨rfl, ⟨rfl, Block.datum_alike c c'⟩, ⟨rfl, Block.datum_alike b b'⟩, ⟨rfl, trivial⟩, trivial⟩
    | _ => exact nofun
  termination_by structural n => n

theorem Block.datum_alike : (a b : Block) → a.datum.Alike b.datum
  | ⟨frame, ns⟩, ⟨frame', ms⟩ => by
    have hframe : frame.datum.Alike frame'.datum :=
      Datum.choice_alike (fun _ _ => Identity.frame_eq_of_position) frame frame'
    exact ⟨⟨rfl, hframe⟩, ⟨rfl, nodeData_alike ns ms⟩, trivial⟩
  termination_by structural a => a

theorem childDatum_alike : (c d : Option Block) → (childDatum c).Alike (childDatum d)
  | none, none => trivial
  | none, some _ => trivial
  | some _, none => trivial
  | some a, some b => Block.datum_alike a b
  termination_by structural c => c

theorem nodeData_alike : (ns ms : List Node) → itemsAlike (nodeData ns) (nodeData ms)
  | [], _ => trivial
  | _ :: _, [] => trivial
  | n :: ns, m :: ms => ⟨Node.datum_alike n m, nodeData_alike ns ms⟩
  termination_by structural ns => ns

end

lemma StackEffect.fields_inj {e f : StackEffect} (h : e.fields = f.fields) : e = f := by
  obtain ⟨take, ret⟩ := e
  obtain ⟨take', ret'⟩ := f
  simpa [fields] using h

lemma Signature.fields_inj {s t : Signature} (h : s.fields = t.fields) : s = t := by
  obtain ⟨heffect, hpure⟩ := List.append_inj h rfl
  have he := StackEffect.fields_inj heffect
  obtain ⟨e, isPure⟩ := s
  obtain ⟨e', isPure'⟩ := t
  simp_all

lemma Mnemonic.fields_inj {m n : Mnemonic} (h : m.fields = n.fields) : m = n := by
  obtain ⟨opcode, arg, comment⟩ := m
  obtain ⟨opcode', arg', comment'⟩ := n
  simp only [fields, List.cons.injEq, Field.mk.injEq, Datum.text.injEq, true_and, and_true] at h
  obtain ⟨rfl, harg, hcomment⟩ := h
  rw [Datum.optional_text_inj harg, Datum.optional_text_inj hcomment]

lemma StackOp.datum_inj {a b : StackOp} (h : a.datum = b.datum) : a = b := by
  simp only [datum, Datum.record.injEq, List.cons.injEq, Field.mk.injEq, Datum.choice.injEq,
    Datum.byte.injEq, true_and, and_true] at h
  obtain ⟨⟨hindex, -⟩, hi, hj, hk⟩ := h
  exact eq_of_index_of_operands hindex (Prod.ext hi (Prod.ext hj hk))

lemma Leaf.datum_inj {l m : Leaf} (h : l.datum = m.datum) : l = m := by
  cases l with
  | location l =>
    cases m with
    | location m =>
      obtain ⟨file, line⟩ := l
      obtain ⟨file', line'⟩ := m
      simpa [datum] using h
    | _ => cases h
  | stack a =>
    cases m with
    | stack b => rw [StackOp.datum_inj (Datum.tagged.inj h).2.2]
    | _ => cases h
  | global a =>
    cases m with
    | global b =>
      obtain ⟨mode, index⟩ := a
      obtain ⟨mode', index'⟩ := b
      simp only [datum, Datum.tagged.injEq, Datum.record.injEq, List.cons.injEq, Field.mk.injEq,
        Datum.byte.injEq, true_and, and_true] at h
      obtain ⟨hmode, rfl⟩ := h
      rw [Datum.choice_inj (fun _ _ => Identity.globalMode_eq_of_position) hmode]
    | _ => cases h
  | instruction i =>
    cases m with
    | instruction j =>
      obtain ⟨line, signature⟩ := i
      obtain ⟨line', signature'⟩ := j
      obtain ⟨hline, hsignature⟩ := List.append_inj (Datum.record.inj (Datum.tagged.inj h).2.2) rfl
      obtain rfl : line = line' := Mnemonic.fields_inj hline
      obtain rfl : signature = signature' := Signature.fields_inj hsignature
      rfl
    | _ => cases h
  | verbatim v =>
    cases m with
    | verbatim w =>
      obtain ⟨lines, signature⟩ := v
      obtain ⟨lines', signature'⟩ := w
      simp only [datum, Datum.tagged.injEq, Datum.record.injEq, List.cons.injEq, Field.mk.injEq,
        Datum.list.injEq, true_and] at h
      obtain ⟨hlines, hsignature⟩ := h
      rw [(List.map_inj_right Datum.text_injective).mp hlines, Signature.fields_inj hsignature]
    | _ => cases h
  | exit e =>
    cases m with
    | exit f =>
      obtain ⟨line, effect⟩ := e
      obtain ⟨line', effect'⟩ := f
      obtain ⟨hline, heffect⟩ := List.append_inj (Datum.record.inj (Datum.tagged.inj h).2.2) rfl
      obtain rfl : line = line' := Mnemonic.fields_inj hline
      obtain rfl : effect = effect' := StackEffect.fields_inj heffect
      rfl
    | _ => cases h

mutual

theorem Node.datum_inj : (n m : Node) → n.datum = m.datum → n = m
  | .leaf l, m, h => by
    cases m with
    | leaf l' => rw [Leaf.datum_inj h]
    | _ => cases l <;> cases h
  | .sealed b s, m, h => by
    cases m with
    | leaf l => cases l <;> cases h
    | sealed b' s' =>
      simp only [Node.datum, Datum.tagged.injEq, Datum.record.injEq, List.cons.injEq,
        Field.mk.injEq, true_and] at h
      rw [Block.datum_inj b b' h.1, Signature.fields_inj h.2]
    | _ => cases h
  | .data k t c, m, h => by
    cases m with
    | leaf l => cases l <;> cases h
    | data k' t' c' =>
      simp only [Node.datum, Datum.tagged.injEq, Datum.record.injEq, List.cons.injEq,
        Field.mk.injEq, Datum.text.injEq, true_and, and_true] at h
      obtain ⟨hkind, rfl, hchild⟩ := h
      rw [Datum.choice_inj (fun _ _ => Identity.dataKind_eq_of_position) hkind,
        childDatum_inj c c' hchild]
    | _ => cases h
  | .block b, m, h => by
    cases m with
    | leaf l => cases l <;> cases h
    | block b' => rw [Block.datum_inj b b' (Datum.tagged.inj h).2.2]
    | _ => cases h
  | .conditional k t f, m, h => by
    cases m with
    | leaf l => cases l <;> cases h
    | conditional k' t' f' =>
      simp only [Node.datum, Datum.tagged.injEq, Datum.record.injEq, List.cons.injEq,
        Field.mk.injEq, true_and, and_true] at h
      obtain ⟨hkind, htrue, hfalse⟩ := h
      rw [Datum.choice_inj (fun _ _ => Identity.conditionalKind_eq_of_position) hkind,
        Block.datum_inj t t' htrue, childDatum_inj f f' hfalse]
    | _ => cases h
  | .repeatLoop k b, m, h => by
    cases m with
    | leaf l => cases l <;> cases h
    | repeatLoop k' b' =>
      simp only [Node.datum, Datum.tagged.injEq, Datum.record.injEq, List.cons.injEq,
        Field.mk.injEq, true_and, and_true] at h
      rw [Datum.choice_inj (fun _ _ => Identity.repeatKind_eq_of_position) h.1,
        Block.datum_inj b b' h.2]
    | _ => cases h
  | .whileLoop c b p, m, h => by
    cases m with
    | leaf l => cases l <;> cases h
    | whileLoop c' b' p' =>
      simp only [Node.datum, Datum.tagged.injEq, Datum.record.injEq, List.cons.injEq,
        Field.mk.injEq, Datum.flag.injEq, true_and, and_true] at h
      obtain ⟨hcondition, hbody, rfl⟩ := h
      rw [Block.datum_inj c c' hcondition, Block.datum_inj b b' hbody]
    | _ => cases h
  termination_by structural n => n

theorem Block.datum_inj : (a b : Block) → a.datum = b.datum → a = b
  | ⟨frame, ns⟩, ⟨frame', ms⟩, h => by
    simp only [Block.datum, Datum.record.injEq, List.cons.injEq, Field.mk.injEq,
      Datum.list.injEq, true_and, and_true] at h
    rw [Datum.choice_inj (fun _ _ => Identity.frame_eq_of_position) h.1, nodeData_inj ns ms h.2]
  termination_by structural a => a

theorem childDatum_inj : (c d : Option Block) → childDatum c = childDatum d → c = d
  | none, none, _ => rfl
  | none, some _, h => by cases h
  | some _, none, h => by cases h
  | some a, some b, h => by rw [Block.datum_inj a b (Datum.present.inj h)]
  termination_by structural c => c

theorem nodeData_inj : (ns ms : List Node) → nodeData ns = nodeData ms → ns = ms
  | [], [], _ => rfl
  | [], _ :: _, h => by cases h
  | _ :: _, [], h => by cases h
  | n :: ns, m :: ms, h => by
    obtain ⟨hnode, hnodes⟩ := List.cons.inj h
    rw [Node.datum_inj n m hnode, nodeData_inj ns ms hnodes]
  termination_by structural ns => ns

end

lemma FunctionKind.datum_alike (k l : FunctionKind) : k.datum.Alike l.datum :=
  Datum.choice_alike (fun _ _ => Identity.functionKind_eq_of_position) k l

lemma Function.datum_alike (f g : Function) : f.datum.Alike g.datum :=
  fieldsAlike_append
    (fieldsAlike_append ⟨⟨rfl, trivial⟩, ⟨rfl, f.kind.datum_alike g.kind⟩, trivial⟩
      (f.effect.fields_alike g.effect))
    ⟨⟨rfl, f.block.datum_alike g.block⟩, trivial⟩

lemma Function.datum_inj {f g : Function} (h : f.datum = g.datum) : f = g := by
  obtain ⟨name, kind, effect, block⟩ := f
  obtain ⟨name', kind', effect', block'⟩ := g
  obtain ⟨hhead, hblock⟩ := List.append_inj (Datum.record.inj h) rfl
  obtain ⟨hnames, heffect⟩ := List.append_inj hhead rfl
  simp only [List.cons.injEq, Field.mk.injEq, Datum.text.injEq, true_and, and_true] at hnames hblock
  obtain ⟨rfl, hkind⟩ := hnames
  obtain rfl : effect = effect' := StackEffect.fields_inj heffect
  rw [Datum.choice_inj (fun _ _ => Identity.functionKind_eq_of_position) hkind,
    block.datum_inj block' hblock]

lemma Program.datum_alike (p q : Program) : p.datum.Alike q.datum :=
  ⟨⟨rfl, itemsAlike_texts p.pragmas q.pragmas⟩,
    ⟨rfl, itemsAlike_map Function.datum_alike p.functions q.functions⟩, trivial⟩

lemma Program.datum_inj {p q : Program} (h : p.datum = q.datum) : p = q := by
  obtain ⟨pragmas, functions⟩ := p
  obtain ⟨pragmas', functions'⟩ := q
  simp only [datum, Datum.record.injEq, List.cons.injEq, Field.mk.injEq, Datum.list.injEq,
    true_and, and_true] at h
  have hfunction : Function.Injective Function.datum := fun _ _ => Function.datum_inj
  rw [(List.map_inj_right Datum.text_injective).mp h.1, (List.map_inj_right hfunction).mp h.2]

/-! ## Nothing is lost -/

/-- A code from which values can be read back: different values have different codes, no code starts
another one, and codes that follow each other can be taken apart. -/
structure Lossless {α : Type} (code : α → Bytes) : Prop where
  eq_iff (a b : α) : code a = code b ↔ a = b
  prefix_iff (a b : α) : code a <+: code b ↔ a = b
  flatMap_eq_iff (as bs : List α) : as.flatMap code = bs.flatMap code ↔ as = bs

/-- It is enough that no byte string starts with the codes of two values, and that each value has a
code. -/
lemma Lossless.of_append_inj {α : Type} {code : α → Bytes}
    (hcode : ∀ a b r s, code a ++ r = code b ++ s → a = b ∧ r = s) (hne : ∀ a, code a ≠ []) :
    Lossless code where
  eq_iff a b := by
    refine ⟨fun h => (hcode a b [] [] ?_).1, congrArg code⟩
    rw [h]
  prefix_iff a b := by
    constructor
    · rintro ⟨rest, h⟩
      rw [← List.append_nil (code b)] at h
      exact (hcode a b rest [] h).1
    · rintro rfl
      exact List.prefix_refl _
  flatMap_eq_iff as bs := by
    refine ⟨fun h => ?_, congrArg _⟩
    induction as generalizing bs with
    | nil =>
      cases bs with
      | nil => rfl
      | cons b bs =>
        rw [List.flatMap_nil, List.flatMap_cons] at h
        exact absurd (List.append_eq_nil_iff.mp h.symm).1 (hne b)
    | cons a as ih =>
      cases bs with
      | nil =>
        rw [List.flatMap_nil, List.flatMap_cons] at h
        exact absurd (List.append_eq_nil_iff.mp h).1 (hne a)
      | cons b bs =>
        rw [List.flatMap_cons, List.flatMap_cons] at h
        obtain ⟨rfl, hrest⟩ := hcode a b _ _ h
        rw [ih bs hrest]

/-- Values that give data made alike, and different data if they are different, have a code from
which they can be read back. -/
lemma Lossless.of_datum {α : Type} {datum : α → Datum} (halike : ∀ a b, (datum a).Alike (datum b))
    (hinj : ∀ a b, datum a = datum b → a = b) (hne : ∀ a, (datum a).compact ≠ []) :
    Lossless fun a => (datum a).compact := by
  refine .of_append_inj (fun a b r s h => ?_) hne
  obtain ⟨hdatum, hrest⟩ := Datum.compact_append_inj _ _ (halike a b) h
  exact ⟨hinj a b hdatum, hrest⟩

lemma Leaf.compact_ne_nil (l : Leaf) : l.datum.compact ≠ [] := by
  cases l <;> simp [datum, Datum.compact, varint_ne_nil]

lemma Node.compact_ne_nil (n : Node) : n.datum.compact ≠ [] := by
  cases n with
  | leaf l => exact l.compact_ne_nil
  | _ => simp [datum, Datum.compact, varint_ne_nil]

lemma Block.compact_ne_nil (b : Block) : b.datum.compact ≠ [] := by
  obtain ⟨frame, body⟩ := b
  simp [datum, Frame.datum, Datum.compact, compactFields, Field.compact, varint_ne_nil]

lemma Function.compact_ne_nil (f : Function) : f.datum.compact ≠ [] := by
  simp [datum, Datum.compact, compactFields, Field.compact, varint_ne_nil]

lemma Program.compact_ne_nil (p : Program) : p.datum.compact ≠ [] := by
  simp [datum, Datum.compact, compactFields, Field.compact, varint_ne_nil]

/-- The bytes that a tree is handed over as say all of it, annotations and names included. -/
theorem compact_lossless :
    (Lossless fun n : Node => n.datum.compact) ∧ (Lossless fun b : Block => b.datum.compact) ∧
      (Lossless fun f : Function => f.datum.compact) ∧
      (Lossless fun p : Program => p.datum.compact) :=
  ⟨.of_datum Node.datum_alike Node.datum_inj Node.compact_ne_nil,
    .of_datum Block.datum_alike Block.datum_inj Block.compact_ne_nil,
    .of_datum Function.datum_alike (fun _ _ => Function.datum_inj) Function.compact_ne_nil,
    .of_datum Program.datum_alike (fun _ _ => Program.datum_inj) Program.compact_ne_nil⟩

end TvmAssembly
