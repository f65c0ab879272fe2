import TvmAssembly.Proofs.BuiltTrees
import TvmAssembly.Proofs.PrefixCodes
import TvmAssembly.Proofs.Unannotated

/-!
# Reading a tree back from what is written for its identity

The byte string of a tree can be read back, up to annotations. A node starts with a mark of its own
and a block is closed by one that starts no node, so nothing has to say how many nodes a block
holds. A conditional does not say whether there is a second arm; its kind does, in a tree that the
factories built.
-/

namespace TvmAssembly

/-- The texts of the code have lengths that a word can hold. A comment is not written. -/
def Mnemonic.Fits (m : Mnemonic) : Prop :=
  m.opcode.utf8ByteSize < UInt32.size ∧ ∀ arg, m.arg = some arg → arg.utf8ByteSize < UInt32.size

def Leaf.Fits : Leaf → Prop
  | .instruction i => i.line.Fits
  | .exit e => e.line.Fits
  | .verbatim v => v.lines.length < UInt32.size ∧ ∀ line ∈ v.lines, line.utf8ByteSize < UInt32.size
  | _ => True

def Event.Fits : Event → Prop
  | .leaf l => l.Fits
  | .enter (.data d) => d.text.utf8ByteSize < UInt32.size
  | _ => True

/-- All texts of the code and all lists of lines in the block are short enough for their lengths to
be written as words. -/
def Block.Fits (b : Block) : Prop := ∀ e ∈ b.events, e.Fits

namespace Identity

/-- What reading an event back rests on. -/
def Readable (e : Event) : Prop := e.Fits ∧ e.Sound

lemma code_append_inj {m n : Mnemonic} {r s : Bytes} (hm : m.Fits) (hn : n.Fits)
    (h : code m ++ r = code n ++ s) : m.withoutComment = n.withoutComment ∧ r = s := by
  obtain ⟨opcode, arg, comment⟩ := m
  obtain ⟨opcode', arg', comment'⟩ := n
  simp only [code, List.append_assoc] at h
  obtain ⟨rfl, harg⟩ := text_append_inj hm.1 hn.1 h
  obtain ⟨rfl, hrest⟩ := optional_append_inj hm.2 hn.2 harg
  exact ⟨rfl, hrest⟩

lemma instruction_append_inj {i j : Instruction} {r s : Bytes} (hi : i.line.Fits)
    (hj : j.line.Fits)
    (h : leafMark (.instruction i) ++ r = leafMark (.instruction j) ++ s) :
    (Leaf.instruction i).unannotated = (Leaf.instruction j).unannotated ∧ r = s := by
  simp only [leafMark, List.cons_append, List.append_assoc, List.cons.injEq, true_and] at h
  obtain ⟨hline, hsignature⟩ := code_append_inj hi hj h
  obtain ⟨hs, hrest⟩ := signature_append_inj hsignature
  exact ⟨by simp only [Leaf.unannotated, hline, hs], hrest⟩

lemma verbatim_append_inj {v w : Verbatim} {r s : Bytes} (hv : (Leaf.verbatim v).Fits)
    (hw : (Leaf.verbatim w).Fits) (h : leafMark (.verbatim v) ++ r = leafMark (.verbatim w) ++ s) :
    v = w ∧ r = s := by
  obtain ⟨lines, signature⟩ := v
  obtain ⟨lines', signature'⟩ := w
  simp only [leafMark, List.cons_append, List.append_assoc, List.cons.injEq, true_and] at h
  obtain ⟨hcount, hlines⟩ := size_append_inj hv.1 hw.1 h
  obtain ⟨rfl, hsignature⟩ := texts_append_inj hv.2 hw.2 hcount hlines
  obtain ⟨rfl, hrest⟩ := signature_append_inj hsignature
  exact ⟨rfl, hrest⟩

lemma exit_append_inj {e f : Exit} {r s : Bytes} (he : e.line.Fits) (hf : f.line.Fits)
    (h : leafMark (.exit e) ++ r = leafMark (.exit f) ++ s) :
    (Leaf.exit e).unannotated = (Leaf.exit f).unannotated ∧ r = s := by
  simp only [leafMark, List.cons_append, List.append_assoc, List.cons.injEq, true_and] at h
  obtain ⟨hline, heffect⟩ := code_append_inj he hf h
  obtain ⟨he, hrest⟩ := effect_append_inj heffect
  exact ⟨by simp only [Leaf.unannotated, hline, he], hrest⟩

lemma leafMark_append_inj {l m : Leaf} {r s : Bytes} (hl : (Node.leaf l).isLocation = false)
    (hm : (Node.leaf m).isLocation = false) (fl : l.Fits) (fm : m.Fits)
    (h : leafMark l ++ r = leafMark m ++ s) : l.unannotated = m.unannotated ∧ r = s := by
  cases l with
  | location _ => cases hl
  | stack a =>
    cases m with
    | location _ => cases hm
    | stack b =>
      simp only [leafMark, List.cons_append, List.nil_append, List.cons.injEq, true_and] at h
      obtain ⟨hindex, hi, hj, hk, hrest⟩ := h
      have hops : a.operands = b.operands := Prod.ext hi (Prod.ext hj hk)
      exact ⟨congrArg Leaf.stack (stackOp_eq_of_position hindex hops), hrest⟩
    | _ => simp [leafMark] at h
  | global a =>
    cases m with
    | location _ => cases hm
    | global b =>
      simp only [leafMark, List.cons_append, List.nil_append, List.cons.injEq, true_and] at h
      obtain ⟨hmode, hindex, hrest⟩ := h
      obtain ⟨mode, index⟩ := a
      obtain ⟨mode', index'⟩ := b
      obtain rfl : mode = mode' := globalMode_eq_of_position hmode
      obtain rfl : index = index' := hindex
      exact ⟨rfl, hrest⟩
    | _ => simp [leafMark] at h
  | instruction i =>
    cases m with
    | location _ => cases hm
    | instruction j => exact instruction_append_inj fl fm h
    | _ => simp [leafMark] at h
  | verbatim v =>
    cases m with
    | location _ => cases hm
    | verbatim w =>
      obtain ⟨rfl, hrest⟩ := verbatim_append_inj fl fm h
      exact ⟨rfl, hrest⟩
    | _ => simp [leafMark] at h
  | exit e =>
    cases m with
    | location _ => cases hm
    | exit f => exact exit_append_inj fl fm h
    | _ => simp [leafMark] at h

/-- The byte that tells the sort of a node. Locations are not written, theirs stands for none. -/
def startMark : Node → UInt8
  | .leaf (.location _) => 0x00
  | .leaf (.stack _) => 0x01
  | .leaf (.global _) => 0x02
  | .leaf (.instruction _) => 0x03
  | .leaf (.verbatim _) => 0x04
  | .leaf (.exit _) => 0x05
  | .sealed _ _ => 0x06
  | .data _ _ _ => 0x07
  | .block _ => 0x08
  | .conditional _ _ _ => 0x0A
  | .repeatLoop _ _ => 0x0B
  | .whileLoop _ _ _ => 0x0C

lemma nodeMarks_eq_cons {n : Node} (hn : n.isLocation = false) :
    ∃ rest, nodeMarks n = startMark n :: rest := by
  cases n with
  | leaf l =>
    cases l with
    | location _ => cases hn
    | _ => exact ⟨_, rfl⟩
  | block b => exact ⟨_, by rw [nodeMarks_block, blockMarks_eq, startMark]⟩
  | _ => exact ⟨_, rfl⟩

lemma startMark_eq_of_append_eq {n m : Node} {r s : Bytes} (hn : n.isLocation = false)
    (hm : m.isLocation = false) (h : nodeMarks n ++ r = nodeMarks m ++ s) :
    startMark n = startMark m := by
  obtain ⟨rest, hn⟩ := nodeMarks_eq_cons hn
  obtain ⟨rest', hm⟩ := nodeMarks_eq_cons hm
  rw [hn, hm] at h
  exact List.head_eq_of_cons_eq h

lemma startMark_leaf_ne {l : Leaf} {m : Node} (hm : ∀ l', m ≠ .leaf l') :
    startMark (.leaf l) ≠ startMark m := by
  cases m with
  | leaf l' => exact absurd rfl (hm l')
  | _ => cases l <;> simp [startMark]

/-- No node starts like the end of a block. -/
lemma nodeMarks_append_ne_blockEnd {n : Node} {r s : Bytes} (hn : n.isLocation = false) :
    nodeMarks n ++ r ≠ blockEnd :: s := by
  intro h
  obtain ⟨rest, hn⟩ := nodeMarks_eq_cons hn
  rw [hn] at h
  have hstart : startMark n = blockEnd := List.head_eq_of_cons_eq h
  cases n with
  | leaf l => cases l <;> simp [startMark, blockEnd] at hstart
  | _ => simp [startMark, blockEnd] at hstart

mutual

theorem nodeMarks_append_inj {r s : Bytes} : (n m : Node) → n.isLocation = false →
    m.isLocation = false → (∀ e ∈ n.events, Readable e) → (∀ e ∈ m.events, Readable e) →
    nodeMarks n ++ r = nodeMarks m ++ s → n.unannotated = m.unannotated ∧ r = s
  | .leaf l, m, hn, hm, rn, rm, h => by
    cases m with
    | leaf l' =>
      simp only [Node.events, List.forall_mem_singleton] at rn rm
      rw [nodeMarks_leaf, nodeMarks_leaf] at h
      obtain ⟨hl, hrest⟩ := leafMark_append_inj hn hm rn.1 rm.1 h
      exact ⟨by rw [Node.unannotated, Node.unannotated, hl], hrest⟩
    | _ => exact absurd (startMark_eq_of_append_eq hn hm h) (startMark_leaf_ne (by simp))
  | .sealed b t, m, hn, hm, rn, rm, h => by
    cases m with
    | leaf l => exact absurd (startMark_eq_of_append_eq hm hn h.symm) (startMark_leaf_ne (by simp))
    | sealed b' t' =>
      simp only [Node.events, List.forall_mem_cons] at rn rm
      simp only [nodeMarks_sealed, List.cons_append, List.append_assoc, List.cons.injEq,
        true_and] at h
      obtain ⟨rfl, hblock⟩ := signature_append_inj h
      obtain ⟨hb, hrest⟩ := blockMarks_append_inj b b' rn.2 rm.2 hblock
      exact ⟨by rw [Node.unannotated, Node.unannotated, hb], hrest⟩
    | _ => exact absurd (startMark_eq_of_append_eq hn hm h) (by simp [startMark])
  | .data k t c, m, hn, hm, rn, rm, h => by
    cases m with
    | leaf l => exact absurd (startMark_eq_of_append_eq hm hn h.symm) (startMark_leaf_ne (by simp))
    | data k' t' c' =>
      simp only [Node.events, List.forall_mem_cons] at rn rm
      simp only [nodeMarks_data, List.cons_append, List.append_assoc, List.cons.injEq,
        true_and] at h
      obtain rfl := dataKind_eq_of_position h.1
      obtain ⟨rfl, hflag⟩ := text_append_inj rn.1.1 rm.1.1 h.2
      obtain ⟨hsome, hchild⟩ := ofBool_append_inj hflag
      obtain ⟨hc, hrest⟩ := childMarks_append_inj c c' hsome rn.2 rm.2 hchild
      exact ⟨by rw [Node.unannotated, Node.unannotated, hc], hrest⟩
    | _ => exact absurd (startMark_eq_of_append_eq hn hm h) (by simp [startMark])
  | .block b, m, hn, hm, rn, rm, h => by
    cases m with
    | leaf l => exact absurd (startMark_eq_of_append_eq hm hn h.symm) (startMark_leaf_ne (by simp))
    | block b' =>
      obtain ⟨hb, hrest⟩ := blockMarks_append_inj b b' rn rm h
      exact ⟨by rw [Node.unannotated, Node.unannotated, hb], hrest⟩
    | _ => exact absurd (startMark_eq_of_append_eq hn hm h) (by simp [startMark])
  | .conditional k t f, m, hn, hm, rn, rm, h => by
    cases m with
    | leaf l => exact absurd (startMark_eq_of_append_eq hm hn h.symm) (startMark_leaf_ne (by simp))
    | conditional k' t' f' =>
      simp only [Node.events, List.forall_mem_cons, List.forall_mem_append] at rn rm
      simp only [nodeMarks_conditional, List.cons_append, List.append_assoc, List.cons.injEq,
        true_and] at h
      obtain rfl := conditionalKind_eq_of_position h.1
      obtain ⟨ht, hchild⟩ := blockMarks_append_inj t t' rn.2.1 rm.2.1 h.2
      -- the kind alone says whether a second arm follows
      have hsome : f.isSome = f'.isSome :=
        rn.1.2.isSome_falseArm.trans rm.1.2.isSome_falseArm.symm
      obtain ⟨hf, hrest⟩ := childMarks_append_inj f f' hsome rn.2.2 rm.2.2 hchild
      exact ⟨by rw [Node.unannotated, Node.unannotated, ht, hf], hrest⟩
    | _ => exact absurd (startMark_eq_of_append_eq hn hm h) (by simp [startMark])
  | .repeatLoop k b, m, hn, hm, rn, rm, h => by
    cases m with
    | leaf l => exact absurd (startMark_eq_of_append_eq hm hn h.symm) (startMark_leaf_ne (by simp))
    | repeatLoop k' b' =>
      simp only [Node.events, List.forall_mem_cons] at rn rm
      simp only [nodeMarks_repeatLoop, List.cons_append, List.cons.injEq, true_and] at h
      obtain rfl := repeatKind_eq_of_position h.1
      obtain ⟨hb, hrest⟩ := blockMarks_append_inj b b' rn.2 rm.2 h.2
      exact ⟨by rw [Node.unannotated, Node.unannotated, hb], hrest⟩
    | _ => exact absurd (startMark_eq_of_append_eq hn hm h) (by simp [startMark])
  | .whileLoop c b p, m, hn, hm, rn, rm, h => by
    cases m with
    | leaf l => exact absurd (startMark_eq_of_append_eq hm hn h.symm) (startMark_leaf_ne (by simp))
    | whileLoop c' b' p' =>
      simp only [Node.events, List.forall_mem_cons, List.forall_mem_append] at rn rm
      simp only [nodeMarks_whileLoop, List.cons_append, List.append_assoc, List.cons.injEq,
        true_and] at h
      obtain ⟨rfl, hcondition⟩ := ofBool_append_inj h
      obtain ⟨hc, hbody⟩ := blockMarks_append_inj c c' rn.2.1 rm.2.1 hcondition
      obtain ⟨hb, hrest⟩ := blockMarks_append_inj b b' rn.2.2 rm.2.2 hbody
      exact ⟨by rw [Node.unannotated, Node.unannotated, hc, hb], hrest⟩
    | _ => exact absurd (startMark_eq_of_append_eq hn hm h) (by simp [startMark])
  termination_by structural n => n

theorem blockMarks_append_inj {r s : Bytes} : (a b : Block) → (∀ e ∈ a.events, Readable e) →
    (∀ e ∈ b.events, Readable e) → blockMarks a ++ r = blockMarks b ++ s →
    a.unannotated = b.unannotated ∧ r = s
  | ⟨frame, body⟩, ⟨frame', body'⟩, ra, rb, h => by
    simp only [Block.events, List.forall_mem_cons, List.forall_mem_append] at ra rb
    simp only [blockMarks_eq, List.cons_append, List.append_assoc, List.nil_append,
      List.cons.injEq, true_and] at h
    obtain rfl := frame_eq_of_position h.1
    obtain ⟨hbody, hrest⟩ := bodyMarks_append_inj body body' ra.2.1 rb.2.1 h.2
    exact ⟨by rw [Block.unannotated, Block.unannotated, hbody], hrest⟩
  termination_by structural a => a

theorem childMarks_append_inj {r s : Bytes} : (c d : Option Block) → c.isSome = d.isSome →
    (∀ e ∈ childEvents c, Readable e) → (∀ e ∈ childEvents d, Readable e) →
    childMarks c ++ r = childMarks d ++ s → unannotatedChild c = unannotatedChild d ∧ r = s
  | none, none, _, _, _, h => ⟨rfl, h⟩
  | some a, some b, _, rc, rd, h => by
    obtain ⟨hb, hrest⟩ := blockMarks_append_inj a b rc rd h
    exact ⟨by rw [unannotatedChild, unannotatedChild, hb], hrest⟩
  | none, some _, hsome, _, _, _ => by cases hsome
  | some _, none, hsome, _, _, _ => by cases hsome
  termination_by structural c => c

/-- The nodes of a block are read up to its end. On either side locations are passed over. -/
theorem bodyMarks_append_inj {r s : Bytes} : (ns ms : List Node) →
    (∀ e ∈ bodyEvents ns, Readable e) → (∀ e ∈ bodyEvents ms, Readable e) →
    bodyMarks ns ++ blockEnd :: r = bodyMarks ms ++ blockEnd :: s →
    unannotatedBody ns = unannotatedBody ms ∧ r = s
  | [], ms, _, rm, h => by
    induction ms with
    | nil => exact ⟨rfl, List.tail_eq_of_cons_eq h⟩
    | cons m ms ih =>
      rw [bodyMarks_cons, List.append_assoc] at h
      simp only [bodyEvents, List.forall_mem_append] at rm
      cases hm : m.isLocation with
      | true =>
        rw [nodeMarks_of_isLocation hm, List.nil_append] at h
        rw [unannotatedBody_cons, if_pos hm]
        exact ih rm.2 h
      | false => exact absurd h.symm (nodeMarks_append_ne_blockEnd hm)
  | n :: ns, ms, rn, rm, h => by
    rw [bodyMarks_cons, List.append_assoc] at h
    simp only [bodyEvents, List.forall_mem_append] at rn
    cases hn : n.isLocation with
    | true =>
      rw [nodeMarks_of_isLocation hn, List.nil_append] at h
      rw [unannotatedBody_cons, if_pos hn]
      exact bodyMarks_append_inj ns ms rn.2 rm h
    | false =>
      induction ms with
      | nil => exact absurd h (nodeMarks_append_ne_blockEnd hn)
      | cons m ms ih =>
        rw [bodyMarks_cons, List.append_assoc] at h
        simp only [bodyEvents, List.forall_mem_append] at rm
        cases hm : m.isLocation with
        | true =>
          rw [nodeMarks_of_isLocation hm, List.nil_append] at h
          rw [unannotatedBody_cons m, if_pos hm]
          exact ih rm.2 h
        | false =>
          obtain ⟨hnode, hbody⟩ := nodeMarks_append_inj n m hn hm rn.1 rm.1 h
          obtain ⟨hns, hrest⟩ := bodyMarks_append_inj ns ms rn.2 rm.2 hbody
          refine ⟨?_, hrest⟩
          rw [unannotatedBody_cons, unannotatedBody_cons, hn, hm, hnode, hns]
  termination_by structural ns => ns

end

end Identity

end TvmAssembly
