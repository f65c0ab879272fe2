import TvmAssembly.Build.Leaf
import TvmAssembly.Proofs.EscapedSemicolons

/-!
# Lines read back

A mnemonic that a line was read as is written out to a line that reads as the same mnemonic, and
resolves to the same signature. The mnemonics that some line reads as are the well-formed ones.
-/

namespace TvmAssembly

namespace Mnemonic

/-- The mnemonics that have a line of their own. -/
structure WellFormed (m : Mnemonic) : Prop where
  opcode_solid : ∀ c ∈ m.opcode.toList, Text.isBlank c = false
  arg_of_opcode_empty : m.opcode = "" → m.arg = none
  arg_ne_empty : ∀ arg ∈ m.arg, arg ≠ ""
  arg_trimmed : ∀ arg ∈ m.arg, Text.IsTrimmed arg.toList
  code_closed : ¬HasBareSemicolon m.code.toList

lemma WellFormed.withoutComment {m : Mnemonic} (h : m.WellFormed) : m.withoutComment.WellFormed :=
  ⟨h.opcode_solid, h.arg_of_opcode_empty, h.arg_ne_empty, h.arg_trimmed, h.code_closed⟩

/-! ## From the mnemonic to its line and back -/

lemma splitCode_word {word back : List Char} (hword : ∀ c ∈ word, Text.isBlank c = false)
    (hback : ∀ c ∈ back, Text.isBlank c = true) : splitCode (word ++ back) = (word, none) := by
  have htrim : Text.trim ([] ++ (word ++ back)) = word :=
    Text.trim_blanks_append (Text.isTrimmed_of_forall_not_blank hword) (by simp) hback
  have hsplit : Text.splitWord (word ++ []) = (word, []) := Text.splitWord_eq hword (by simp)
  rw [List.nil_append] at htrim
  rw [List.append_nil] at hsplit
  simp only [splitCode, htrim, hsplit]
  rfl

lemma splitCode_word_arg {word arg back : List Char}
    (hword : ∀ c ∈ word, Text.isBlank c = false) (hne : word ≠ [])
    (harg : Text.IsTrimmed arg) (hargne : arg ≠ [])
    (hback : ∀ c ∈ back, Text.isBlank c = true) :
    splitCode (word ++ ' ' :: arg ++ back) = (word, some arg) := by
  have hcode : Text.IsTrimmed (word ++ ' ' :: arg) := by
    constructor
    · intro c hc
      rw [List.head?_append_of_ne_nil _ hne] at hc
      exact hword c (List.mem_of_mem_head? hc)
    · intro c hc
      obtain ⟨a, as, rfl⟩ := List.exists_cons_of_ne_nil hargne
      apply harg.last
      simpa using hc
  have htrim : Text.trim ([] ++ (word ++ ' ' :: arg ++ back)) = word ++ ' ' :: arg :=
    Text.trim_blanks_append hcode (by simp) hback
  have hsplit : Text.splitWord (word ++ ' ' :: arg) = (word, ' ' :: arg) :=
    Text.splitWord_eq hword (by simp [Text.isBlank_space])
  have hrest : Text.trim ([' '] ++ (arg ++ [])) = arg :=
    Text.trim_blanks_append harg (by simp [Text.isBlank_space]) (by simp)
  rw [List.nil_append] at htrim
  rw [List.append_nil, List.singleton_append] at hrest
  simp only [splitCode, htrim, hsplit, hrest]

lemma WellFormed.splitCode_code {m : Mnemonic} (h : m.WellFormed) {back : List Char}
    (hback : ∀ c ∈ back, Text.isBlank c = true) :
    splitCode (m.code.toList ++ back) = (m.opcode.toList, m.arg.map String.toList) := by
  obtain ⟨opcode, arg, comment⟩ := m
  cases arg with
  | none => exact splitCode_word h.opcode_solid hback
  | some arg =>
    have hopcode : opcode.toList ≠ [] := by
      intro hnil
      have hempty : opcode = "" := String.toList_eq_nil_iff.mp hnil
      simpa using h.arg_of_opcode_empty hempty
    have harg : arg.toList ≠ [] := by
      intro hnil
      exact h.arg_ne_empty arg rfl (String.toList_eq_nil_iff.mp hnil)
    have hcode : (Mnemonic.code ⟨opcode, some arg, comment⟩).toList =
        opcode.toList ++ ' ' :: arg.toList := by
      simp [code]
    rw [hcode]
    exact splitCode_word_arg h.opcode_solid hopcode (h.arg_trimmed arg rfl) harg hback

theorem WellFormed.parse_render {m : Mnemonic} (h : m.WellFormed) : parse m.render = m := by
  obtain ⟨opcode, arg, comment⟩ := m
  cases comment with
  | none =>
    have hcode := h.splitCode_code (by simp : ∀ c ∈ [], Text.isBlank c = true)
    rw [List.append_nil] at hcode
    simp only [parse, render, splitComment_code h.code_closed, hcode]
    cases arg <;> simp
  | some comment =>
    have hcode := h.splitCode_code (by simp [Text.isBlank_space] :
      ∀ c ∈ [' '], Text.isBlank c = true)
    have hline : (render ⟨opcode, arg, some comment⟩).toList =
        (code ⟨opcode, arg, some comment⟩).toList ++ ' ' :: ';' :: comment.toList := by
      simp [render]
    simp only [parse, hline, splitComment_code_comment h.code_closed, hcode]
    cases arg <;> simp

theorem WellFormed.parse_code {m : Mnemonic} (h : m.WellFormed) :
    parse m.code = m.withoutComment :=
  h.withoutComment.parse_render

/-! ## From a line to its mnemonic -/

/-- The code keeps its semicolons escaped when the blanks behind its first word become one. -/
lemma not_hasBareSemicolon_respaced {word back : List Char} {b : Char}
    (hb : Text.isBlank b = true) (h : ¬HasBareSemicolon (word ++ b :: back)) :
    ¬HasBareSemicolon (word ++ ' ' :: Text.trim (b :: back)) := by
  rw [hasBareSemicolon_append_blank_cons_iff hb, not_or] at h
  have hrest : ¬HasBareSemicolon ([] ++ b :: back) := by
    rw [hasBareSemicolon_append_blank_cons_iff hb, not_or]
    exact ⟨by simp [HasBareSemicolon], h.2⟩
  rw [hasBareSemicolon_append_blank_cons_iff Text.isBlank_space, not_or]
  exact ⟨h.1, not_hasBareSemicolon_trim hrest⟩

/-- Code without a bare semicolon splits into the parts of a well-formed mnemonic. -/
lemma wellFormed_of_splitCode {cs opcode : List Char} {arg : Option (List Char)}
    (hcs : ¬HasBareSemicolon cs) (h : splitCode cs = (opcode, arg)) (comment : Option String) :
    WellFormed ⟨String.ofList opcode, arg.map String.ofList, comment⟩ := by
  have htrim : ¬HasBareSemicolon (Text.trim cs) := not_hasBareSemicolon_trim hcs
  have htrimmed := Text.isTrimmed_trim cs
  have hparts := Text.splitWord_append (Text.trim cs)
  have hsolid := Text.solid_splitWord (Text.trim cs)
  have hrest := Text.splitWord_rest (Text.trim cs)
  rw [splitCode] at h
  generalize Text.splitWord (Text.trim cs) = parts at h hparts hsolid hrest
  obtain ⟨word, rest⟩ := parts
  rw [← hparts] at htrim htrimmed
  have hargTrimmed := Text.isTrimmed_trim rest
  dsimp only at h hsolid hrest
  split at h
  · obtain ⟨rfl, rfl⟩ := Prod.mk.inj h
    have hword : ¬HasBareSemicolon word := fun hbare => htrim (hbare.append rest)
    exact ⟨by simpa using hsolid, by simp, by simp, by simp, by simpa [code] using hword⟩
  · next hnil =>
    obtain ⟨rfl, rfl⟩ := Prod.mk.inj h
    rcases hrest with rfl | ⟨b, back, rfl, hb⟩
    · exact absurd rfl hnil
    refine ⟨by simpa using hsolid, ?_, by simpa using hnil, by simpa using hargTrimmed, ?_⟩
    · intro hempty
      have hword : word = [] := by simpa using hempty
      rw [hword] at htrimmed
      have hnotBlank := htrimmed.head b rfl
      rw [hb] at hnotBlank
      cases hnotBlank
    · have hcode : (code ⟨String.ofList word, some (String.ofList (Text.trim (b :: back))),
          comment⟩).toList = word ++ ' ' :: Text.trim (b :: back) := by
        simp [code]
      rw [Option.map_some, hcode]
      exact not_hasBareSemicolon_respaced hb htrim

theorem wellFormed_parse (line : String) : (parse line).WellFormed :=
  wellFormed_of_splitCode (not_hasBareSemicolon_splitComment line.toList) rfl _

end Mnemonic

/-! ## Signatures

A signature depends on opcode and argument; the line and its comment are told in faults only. -/

namespace Opcode

variable {m m' : Mnemonic} {line : String}

lemma Family.count_eq_ok_of_arg_eq (harg : m'.arg = m.arg) {n : UInt32}
    (h : count m line = .ok n) (line' : String) : count m' line' = .ok n := by
  unfold count at h ⊢
  rw [harg]
  cases hm : m.arg with
  | none => simp [hm] at h
  | some arg =>
    cases hn : Text.word? arg with
    | none => simp [hm, hn] at h
    | some k => simpa [hm, hn] using h

lemma Family.effect_eq_ok_of_arg_eq (harg : m'.arg = m.arg) {family : Family}
    {effect : StackEffect} (h : family.effect m line = .ok effect) (line' : String) :
    family.effect m' line' = .ok effect := by
  cases family with
  | dictSet => exact h
  | dictUpdate => exact h
  | tuple =>
    rw [Family.effect, Fault.map_eq_ok_iff] at h ⊢
    obtain ⟨n, hn, heffect⟩ := h
    exact ⟨n, count_eq_ok_of_arg_eq harg hn line', heffect⟩
  | untuple =>
    rw [Family.effect, Fault.map_eq_ok_iff] at h ⊢
    obtain ⟨n, hn, heffect⟩ := h
    exact ⟨n, count_eq_ok_of_arg_eq harg hn line', heffect⟩
  | shift =>
    rw [Family.effect] at h ⊢
    rwa [harg]
  | mulShift =>
    rw [Family.effect] at h ⊢
    rwa [harg]

lemma resolveMnemonic_eq_ok_of_eq (hopcode : m'.opcode = m.opcode) (harg : m'.arg = m.arg)
    {signature : Signature} (h : (resolveMnemonic m line).outcome = .ok signature)
    (line' : String) : (resolveMnemonic m' line').outcome = .ok signature := by
  unfold resolveMnemonic at h ⊢
  rw [hopcode]
  cases hrow : lookup? m.opcode fixedTable with
  | some row => simpa [hrow] using h
  | none =>
    cases hfamily : Family.ofOpcode? m.opcode with
    | none => simp [hrow, hfamily] at h
    | some family =>
      simp only [hrow, hfamily, resolveFamily] at h ⊢
      cases heffect : family.effect m line with
      | error fault => simp [heffect, Attempt.silent] at h
      | ok effect =>
        rw [Family.effect_eq_ok_of_arg_eq harg heffect line']
        rwa [heffect] at h

lemma resolveThrowMnemonic_eq_ok_of_eq (hopcode : m'.opcode = m.opcode)
    {signature : Signature} (h : (resolveThrowMnemonic m line).outcome = .ok signature)
    (line' : String) : (resolveThrowMnemonic m' line').outcome = .ok signature := by
  unfold resolveThrowMnemonic at h ⊢
  rw [hopcode]
  cases hrow : lookup? m.opcode throwTable with
  | some row => simpa [hrow] using h
  | none => simp [hrow] at h

end Opcode

namespace Build

lemma instruction_eq_ok_iff {line : String} {i : Instruction} :
    (instruction line).outcome = .ok i ↔ i.line = Mnemonic.parse line ∧
      (Opcode.resolveMnemonic (Mnemonic.parse line) line).outcome = .ok i.signature := by
  simp only [instruction, Attempt.map, Fault.map_eq_ok_iff]
  constructor
  · rintro ⟨signature, hresolve, rfl⟩
    exact ⟨rfl, hresolve⟩
  · rintro ⟨hline, hresolve⟩
    exact ⟨i.signature, hresolve, by rw [← hline]⟩

lemma throwing_eq_ok_iff {line : String} {e : Exit} :
    (throwing line).outcome = .ok e ↔ e.line = Mnemonic.parse line ∧
      ∃ signature, (Opcode.resolveThrowMnemonic (Mnemonic.parse line) line).outcome =
        .ok signature ∧ signature.effect = e.effect := by
  simp only [throwing, Attempt.map, Fault.map_eq_ok_iff]
  constructor
  · rintro ⟨signature, hresolve, rfl⟩
    exact ⟨rfl, signature, hresolve, rfl⟩
  · rintro ⟨hline, signature, hresolve, heffect⟩
    exact ⟨signature, hresolve, by rw [← hline, heffect]⟩

/-- A line that reads as the same opcode and argument builds the same instruction but for the
comment. -/
lemma instruction_eq_ok_of_parse {line line' : String} {i : Instruction} {m : Mnemonic}
    (h : (instruction line).outcome = .ok i) (hparse : Mnemonic.parse line' = m)
    (hopcode : m.opcode = i.line.opcode) (harg : m.arg = i.line.arg) :
    (instruction line').outcome = .ok { i with line := m } := by
  obtain ⟨hline, hresolve⟩ := instruction_eq_ok_iff.mp h
  rw [hline] at hopcode harg
  rw [instruction_eq_ok_iff, hparse]
  exact ⟨rfl, Opcode.resolveMnemonic_eq_ok_of_eq hopcode harg hresolve line'⟩

lemma throwing_eq_ok_of_parse {line line' : String} {e : Exit} {m : Mnemonic}
    (h : (throwing line).outcome = .ok e) (hparse : Mnemonic.parse line' = m)
    (hopcode : m.opcode = e.line.opcode) :
    (throwing line').outcome = .ok { e with line := m } := by
  obtain ⟨hline, signature, hresolve, heffect⟩ := throwing_eq_ok_iff.mp h
  rw [hline] at hopcode
  rw [throwing_eq_ok_iff, hparse]
  exact ⟨rfl, signature,
    Opcode.resolveThrowMnemonic_eq_ok_of_eq hopcode hresolve line', heffect⟩

/-- Nothing is lost between an instruction or a throw and the line that it is written as: the line
builds it again, and its code alone builds it without the comment. A mnemonic is read from some line
iff it is well-formed, and then from the line that it is written as. -/
theorem rendered_lines_build_again :
    (∀ line i, (instruction line).outcome = .ok i →
      (instruction i.line.render).outcome = .ok i ∧
      (instruction i.line.code).outcome = .ok { i with line := i.line.withoutComment }) ∧
    (∀ line e, (throwing line).outcome = .ok e →
      (throwing e.line.render).outcome = .ok e ∧
      (throwing e.line.code).outcome = .ok { e with line := e.line.withoutComment }) ∧
    (∀ m : Mnemonic, (∃ line, Mnemonic.parse line = m) ↔ m.WellFormed) ∧
    ∀ m : Mnemonic, m.WellFormed → Mnemonic.parse m.render = m := by
  refine ⟨?_, ?_, ?_, fun m hm => hm.parse_render⟩
  · intro line i h
    have hm : i.line.WellFormed := (instruction_eq_ok_iff.mp h).1 ▸ Mnemonic.wellFormed_parse line
    exact ⟨instruction_eq_ok_of_parse h hm.parse_render rfl rfl,
      instruction_eq_ok_of_parse h hm.parse_code rfl rfl⟩
  · intro line e h
    have hm : e.line.WellFormed := (throwing_eq_ok_iff.mp h).1 ▸ Mnemonic.wellFormed_parse line
    exact ⟨throwing_eq_ok_of_parse h hm.parse_render rfl,
      throwing_eq_ok_of_parse h hm.parse_code rfl⟩
  · intro m
    constructor
    · rintro ⟨line, rfl⟩
      exact Mnemonic.wellFormed_parse line
    · exact fun hm => ⟨m.render, hm.parse_render⟩

/-- An argument with an escaped semicolon, which ends in a backslash. -/
def escapedSample : Instruction :=
  ⟨⟨"PUSHINT", some "1\\;\\", some " a;b"⟩, ⟨⟨0, 1⟩, true⟩⟩

def throwSample : Exit := ⟨⟨"THROWIF", some "42", some "code"⟩, ⟨1, 0⟩⟩

def commentSample : Mnemonic := ⟨"", none, some "note"⟩

theorem rendered_lines_build_again_samples :
    ((instruction " PUSHINT\t1\\;\\ ; a;b").outcome = .ok escapedSample ∧
      (instruction escapedSample.line.render).outcome = .ok escapedSample ∧
      (instruction escapedSample.line.code).outcome =
        .ok { escapedSample with line := escapedSample.line.withoutComment }) ∧
    ((throwing "THROWIF  42;code").outcome = .ok throwSample ∧
      (throwing throwSample.line.render).outcome = .ok throwSample ∧
      (throwing throwSample.line.code).outcome =
        .ok { throwSample with line := throwSample.line.withoutComment }) ∧
    commentSample.WellFormed ∧ Mnemonic.parse commentSample.render = commentSample := by
  have hinstruction : (instruction " PUSHINT\t1\\;\\ ; a;b").outcome = .ok escapedSample := rfl
  have hthrow : (throwing "THROWIF  42;code").outcome = .ok throwSample := rfl
  have hcomment : commentSample.WellFormed :=
    (rendered_lines_build_again.2.2.1 commentSample).mp ⟨";note", rfl⟩
  exact ⟨⟨hinstruction, rendered_lines_build_again.1 _ _ hinstruction⟩,
    ⟨hthrow, rendered_lines_build_again.2.1 _ _ hthrow⟩,
    hcomment, rendered_lines_build_again.2.2.2 _ hcomment⟩

end Build

end TvmAssembly
