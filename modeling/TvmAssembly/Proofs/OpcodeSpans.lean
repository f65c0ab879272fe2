import TvmAssembly.Build.Leaf
import TvmAssembly.Diagnostic.Basic
import TvmAssembly.Proofs.LineGrammar
import TvmAssembly.Proofs.LineRoundTrip
import TvmAssembly.Proofs.OpcodeLanguage

/-!
# The opcode that a diagnostic marks

The fault of an unresolvable mnemonic keeps the opcode and the line, but not where in the line the
opcode stood; its diagnostic looks for it there again. An opcode has no blanks, so it does not start
among those at the start of the line, and right behind them it stands. What the search finds first
is therefore the opcode itself, whatever the argument and the comment hold.
-/

namespace TvmAssembly

namespace Text

/-- The part stands in the text from the byte offset `p` on. -/
def OccursAt (part text : String) (p : ℕ) : Prop :=
  ∃ front back : String, text = front ++ part ++ back ∧ p = front.utf8ByteSize

/-- The blanks that a line starts with. -/
def leadingBlanks (line : String) : String :=
  String.ofList (line.toList.takeWhile isBlank)

lemma isBlank_of_mem_leadingBlanks {line : String} {c : Char}
    (h : c ∈ (leadingBlanks line).toList) : isBlank c = true := by
  rw [leadingBlanks, String.toList_ofList] at h
  exact List.mem_takeWhile_imp h

/-- A part is found behind characters among which it cannot start. -/
lemma before?_append_of_notMem {d : Char} {front : List Char} (h : d ∉ front)
    (part rest : List Char) :
    before? (d :: part) (front ++ (d :: part ++ rest)) = some front := by
  induction front with
  | nil =>
    have hstart : behind? (d :: part) (d :: part ++ rest) = some rest :=
      behind?_eq_some_iff.mpr rfl
    rw [List.nil_append, List.cons_append, before?, ← List.cons_append, hstart]
    rfl
  | cons c front ih =>
    rw [List.mem_cons, not_or] at h
    have hstart : behind? (d :: part) (c :: (front ++ (d :: part ++ rest))) = none := if_neg h.1
    rw [List.cons_append, before?, hstart, ih h.2]
    rfl

/-- No place of the part is further left than the one behind such characters. -/
lemma isLeast_occursAt {front part : String} {d : Char} {tail : List Char}
    (hpart : part.toList = d :: tail) (hfront : d ∉ front.toList) (rest : String) :
    IsLeast {p | OccursAt part (front ++ part ++ rest) p} front.utf8ByteSize := by
  refine ⟨⟨front, rest, rfl, rfl⟩, ?_⟩
  rintro p ⟨front', rest', htext, rfl⟩
  have hcuts : front'.toList ++ (part.toList ++ rest'.toList) =
      front.toList ++ (part.toList ++ rest.toList) := by
    rw [← String.toList_inj] at htext
    simpa using htext.symm
  rcases List.append_eq_append_iff.mp hcuts with ⟨mid, hmid, htail⟩ | ⟨mid, hmid, -⟩
  · cases mid with
    | nil =>
      rw [List.append_nil, String.toList_inj] at hmid
      rw [hmid]
    | cons c mid =>
      rw [hpart] at htail
      obtain ⟨rfl, -⟩ := List.cons.inj htail
      exact absurd (by rw [hmid]; simp) hfront
  · have hlonger : front' = front ++ String.ofList mid := by
      rw [← String.toList_inj, hmid]
      simp
    rw [hlonger, String.utf8ByteSize_append]
    exact Nat.le_add_right _ _

end Text

namespace Mnemonic

variable {line : String}

/-- A line with an opcode is the blanks that it starts with, the opcode, and a rest. -/
lemma exists_eq_leadingBlanks_append (h : (parse line).opcode ≠ "") :
    ∃ rest, line = Text.leadingBlanks line ++ (parse line).opcode ++ rest := by
  obtain ⟨code, parts, tail, hline, hparse⟩ : ∃ (code : List Char) (parts : Text.CodeParts code)
      (tail : List Char), line.toList = code ++ tail ∧
        (parse line).opcode = String.ofList parts.opcode := by
    refine ⟨_, .ofCode _, _, splitComment_eq false line.toList, ?_⟩
    rw [parse_eq_of_splitComment rfl (.ofCode _)]
  rw [hparse] at h ⊢
  obtain ⟨d, opcode, hopcode⟩ := List.exists_cons_of_ne_nil (mt String.ofList_eq_empty_iff.mpr h)
  have hsolid : Text.isBlank d = false := parts.firstWord.solid d (by simp [hopcode])
  rw [parts.code_eq] at hline
  have hlead : Text.leadingBlanks line = String.ofList parts.lead := by
    unfold Text.leadingBlanks
    rw [hline, List.append_assoc, List.takeWhile_append_of_pos parts.blank_lead, hopcode]
    simp [hsolid]
  refine ⟨String.ofList (parts.gap ++ (parts.arg ++ parts.trail) ++ tail), ?_⟩
  rw [← String.toList_inj, hlead, hline]
  simp

lemma notMem_leadingBlanks {d : Char} {opcode : List Char}
    (h : (parse line).opcode.toList = d :: opcode) : d ∉ (Text.leadingBlanks line).toList := by
  intro hd
  have hsolid := (wellFormed_parse line).opcode_solid d (by rw [h]; simp)
  rw [Text.isBlank_of_mem_leadingBlanks hd] at hsolid
  cases hsolid

lemma before?_opcode (h : (parse line).opcode ≠ "") :
    Text.before? (parse line).opcode.toList line.toList =
      some (Text.leadingBlanks line).toList := by
  obtain ⟨rest, hline⟩ := exists_eq_leadingBlanks_append h
  obtain ⟨d, opcode, hopcode⟩ := List.exists_cons_of_ne_nil (mt String.toList_eq_nil_iff.mp h)
  have hchars : line.toList =
      (Text.leadingBlanks line).toList ++ (d :: opcode ++ rest.toList) := by
    rw [← hopcode, ← String.toList_append, ← String.toList_append, ← String.append_assoc]
    exact congrArg String.toList hline
  rw [hopcode, hchars]
  exact Text.before?_append_of_notMem (notMem_leadingBlanks hopcode) opcode rest.toList

end Mnemonic

namespace Span

lemma find?_empty (text : String) : find? text "" = some dummy := by
  unfold find?
  rfl

/-- Within the range of words the search marks the part where it is found. -/
lemma find?_eq_some {text part front : String} (hne : part ≠ "")
    (hfound : Text.before? part.toList text.toList = some front.toList)
    (hsize : front.utf8ByteSize + part.utf8ByteSize < UInt32.size) :
    ∃ s, find? text part = some s ∧ s.start.toNat = front.utf8ByteSize ∧
      s.stop.toNat = front.utf8ByteSize + part.utf8ByteSize := by
  obtain ⟨d, tail, hpart⟩ := List.exists_cons_of_ne_nil (mt String.toList_eq_nil_iff.mp hne)
  have hstart : (UInt32.ofNat front.utf8ByteSize).toNat = front.utf8ByteSize :=
    UInt32.toNat_ofNat_of_lt' (by omega)
  have hstop : (UInt32.ofNat (front.utf8ByteSize + part.utf8ByteSize)).toNat =
      front.utf8ByteSize + part.utf8ByteSize := UInt32.toNat_ofNat_of_lt' hsize
  have hle : UInt32.ofNat front.utf8ByteSize ≤
      UInt32.ofNat (front.utf8ByteSize + part.utf8ByteSize) := by
    rw [UInt32.le_iff_toNat_le, hstart, hstop]
    exact Nat.le_add_right _ _
  refine ⟨⟨.ofNat front.utf8ByteSize, .ofNat (front.utf8ByteSize + part.utf8ByteSize)⟩, ?_,
    hstart, hstop⟩
  unfold find?
  rw [hfound, hpart]
  simp only [String.ofList_toList]
  exact if_pos hle

end Span

/-- The diagnostic of an unresolvable mnemonic has the span that the search for the opcode gives. -/
lemma Fault.span_diagnostic?_unresolvable (opcode line : String) :
    (unresolvable opcode line).diagnostic?.map Diagnostic.span = Span.find? line opcode := by
  have hdiagnostic : (unresolvable opcode line).diagnostic? =
      (Span.find? line opcode).map _ := if_pos rfl
  rw [hdiagnostic, Option.map_map]
  exact Option.map_id'

namespace Opcode

/-- A fault that says of the line that its mnemonic has no rule, from whichever of the four ways to
resolve it. -/
structure Unresolved (line : String) (fault : Fault) : Prop where
  isUnresolvable : fault.isUnresolvable = true
  outcome : (Build.instruction line).outcome = .error fault ∨
    (Build.throwing line).outcome = .error fault ∨
    (resolve line).outcome = .error fault ∨ (resolveThrow line).outcome = .error fault

section

variable {m : Mnemonic} {line : String} {fault : Fault}

lemma eq_unresolvable_of_resolveMnemonic (h : (resolveMnemonic m line).outcome = .error fault)
    (hfault : fault.isUnresolvable = true) : fault = .unresolvable m.opcode line := by
  have hresolves := resolves_resolveMnemonic m line
  rw [h] at hresolves
  cases hresolves with
  | unresolvable _ => rfl
  | countMissing _ _ | countUnreadable _ _ _ => cases hfault

lemma eq_unresolvable_of_resolveThrowMnemonic
    (h : (resolveThrowMnemonic m line).outcome = .error fault) :
    fault = .unresolvable m.opcode line := by
  unfold resolveThrowMnemonic at h
  split at h
  · cases h
  · exact (Except.error.inj h).symm

end

namespace Unresolved

variable {line : String} {fault : Fault}

lemma eq_unresolvable (h : Unresolved line fault) :
    fault = .unresolvable (Mnemonic.parse line).opcode line := by
  obtain ⟨hfault, hi | ht | hr | hr⟩ := h
  · simp only [Build.instruction, Attempt.map, Fault.map_eq_error_iff] at hi
    exact eq_unresolvable_of_resolveMnemonic hi hfault
  · simp only [Build.throwing, Attempt.map, Fault.map_eq_error_iff] at ht
    exact eq_unresolvable_of_resolveThrowMnemonic ht
  · exact eq_unresolvable_of_resolveMnemonic hr hfault
  · exact eq_unresolvable_of_resolveThrowMnemonic hr

lemma exists_diagnostic_of_opcode_eq_empty (h : Unresolved line fault)
    (hopcode : (Mnemonic.parse line).opcode = "") :
    ∃ d, fault.diagnostic? = some d ∧ d.span = Span.dummy := by
  have hspan := Fault.span_diagnostic?_unresolvable (Mnemonic.parse line).opcode line
  rw [← h.eq_unresolvable, hopcode, Span.find?_empty] at hspan
  exact Option.map_eq_some_iff.mp hspan

/-- The diagnostic marks the bytes of the opcode behind those of the blanks that the line starts
with. -/
lemma exists_diagnostic (h : Unresolved line fault) (hopcode : (Mnemonic.parse line).opcode ≠ "")
    (hsize : line.utf8ByteSize < UInt32.size) :
    ∃ d, fault.diagnostic? = some d ∧
      d.span.start.toNat = (Text.leadingBlanks line).utf8ByteSize ∧
      d.span.stop.toNat =
        (Text.leadingBlanks line).utf8ByteSize + (Mnemonic.parse line).opcode.utf8ByteSize := by
  obtain ⟨rest, hline⟩ := Mnemonic.exists_eq_leadingBlanks_append hopcode
  have hfits : (Text.leadingBlanks line).utf8ByteSize +
      (Mnemonic.parse line).opcode.utf8ByteSize < UInt32.size := by
    have hbytes := congrArg String.utf8ByteSize hline
    rw [String.utf8ByteSize_append, String.utf8ByteSize_append] at hbytes
    omega
  obtain ⟨s, hfind, hstart, hstop⟩ :=
    Span.find?_eq_some hopcode (Mnemonic.before?_opcode hopcode) hfits
  have hspan := Fault.span_diagnostic?_unresolvable (Mnemonic.parse line).opcode line
  rw [← h.eq_unresolvable, hfind] at hspan
  obtain ⟨d, hd, rfl⟩ := Option.map_eq_some_iff.mp hspan
  exact ⟨d, hd, hstart, hstop⟩

/-- An unresolvable mnemonic is reported with its line as it is, and there always is a diagnostic
for it. Without an opcode that marks nothing. Otherwise the bytes from its start to its end are the
opcode; they start behind the blanks that the line starts with, and nowhere further left does the
opcode occur, so that the place found is none in the argument or in the comment. -/
theorem diagnostic_marks_opcode (h : Unresolved line fault)
    (hsize : line.utf8ByteSize < UInt32.size) :
    fault.sourceLine = line ∧ ∃ d, fault.diagnostic? = some d ∧
      ((Mnemonic.parse line).opcode = "" → d.span = Span.dummy) ∧
      ((Mnemonic.parse line).opcode ≠ "" →
        d.span.isDummy = false ∧
        d.span.start.toNat = (Text.leadingBlanks line).utf8ByteSize ∧
        Text.slice? line d.span.start.toNat d.span.stop.toNat =
          some (Mnemonic.parse line).opcode ∧
        IsLeast {p | Text.OccursAt (Mnemonic.parse line).opcode line p} d.span.start.toNat) := by
  have hsource : fault.sourceLine = line := by
    rw [h.eq_unresolvable]
    rfl
  refine ⟨hsource, ?_⟩
  by_cases hopcode : (Mnemonic.parse line).opcode = ""
  · obtain ⟨d, hd, hspan⟩ := h.exists_diagnostic_of_opcode_eq_empty hopcode
    exact ⟨d, hd, fun _ => hspan, fun hne => absurd hopcode hne⟩
  · obtain ⟨d, hd, hstart, hstop⟩ := h.exists_diagnostic hopcode hsize
    obtain ⟨rest, hline⟩ := Mnemonic.exists_eq_leadingBlanks_append hopcode
    refine ⟨d, hd, fun hempty => absurd hempty hopcode, fun _ => ⟨?_, hstart, ?_, ?_⟩⟩
    · unfold Span.isDummy
      rw [decide_eq_false_iff_not]
      intro hdummy
      rw [hdummy] at hstop
      have hzero : Span.dummy.stop.toNat = 0 := rfl
      apply hopcode
      rw [← String.utf8ByteSize_eq_zero_iff]
      omega
    · rw [hstart, hstop]
      have hslice := Text.slice?_append (Text.leadingBlanks line) (Mnemonic.parse line).opcode rest
      rwa [← hline] at hslice
    · obtain ⟨c, opcode, hchars⟩ :=
        List.exists_cons_of_ne_nil (mt String.toList_eq_nil_iff.mp hopcode)
      have hleast := Text.isLeast_occursAt hchars (Mnemonic.notMem_leadingBlanks hchars) rest
      rwa [← hline, ← hstart] at hleast

/-- An opcode that the argument and the comment repeat, behind a blank of three bytes. -/
theorem diagnostic_marks_opcode_repeated :
    Unresolved "\u3000NOP NOP;NOP" (.unresolvable "NOP" "\u3000NOP NOP;NOP") ∧
      "\u3000NOP NOP;NOP".utf8ByteSize < UInt32.size ∧
      ∃ d, (Fault.unresolvable "NOP" "\u3000NOP NOP;NOP").diagnostic? = some d ∧
        d.span.start.toNat = 3 ∧
        Text.slice? "\u3000NOP NOP;NOP" 3 d.span.stop.toNat = some "NOP" := by
  have hfault : Unresolved "\u3000NOP NOP;NOP" (.unresolvable "NOP" "\u3000NOP NOP;NOP") :=
    ⟨rfl, .inl rfl⟩
  have hsize : "\u3000NOP NOP;NOP".utf8ByteSize < UInt32.size := by decide
  have hparse : (Mnemonic.parse "\u3000NOP NOP;NOP").opcode = "NOP" := by decide
  obtain ⟨-, d, hd, -, hmarks⟩ := hfault.diagnostic_marks_opcode hsize
  obtain ⟨-, hstart, hslice, -⟩ := hmarks (by rw [hparse]; decide)
  have hthree : d.span.start.toNat = 3 := by
    rw [hstart]
    decide
  rw [hthree, hparse] at hslice
  exact ⟨hfault, hsize, d, hd, hthree, hslice⟩

end Unresolved

end Opcode

end TvmAssembly
