import TvmAssembly.Diagnostic.Report
import TvmAssembly.Proofs.OpcodeSpans

/-!
# The columns of a label

A renderer reads the offsets of a label as columns, in characters, and the label has the offsets of
the span of its diagnostic, in bytes. So the label is on the opcode as long as bytes and characters
count the same up to its end. With one character of two bytes before that end the label starts or
stops too far right (`Opcode.Unresolved.label_marks_opcode_iff`).
-/

namespace TvmAssembly

namespace Text

/-- Each character takes one byte. -/
def IsSingleByte (text : String) : Prop :=
  ∀ c ∈ text.toList, c.utf8Size = 1

lemma length_le_utf8ByteSize (cs : List Char) : cs.length ≤ (String.ofList cs).utf8ByteSize := by
  induction cs with
  | nil => exact Nat.zero_le _
  | cons c cs ih =>
    have hc := c.utf8Size_pos
    rw [utf8ByteSize_ofList_cons, List.length_cons]
    omega

/-- As many bytes as characters are there only where each character takes one. -/
lemma utf8ByteSize_eq_length_iff (text : String) :
    text.utf8ByteSize = text.length ↔ IsSingleByte text := by
  obtain ⟨cs, rfl⟩ : ∃ cs, text = String.ofList cs := ⟨text.toList, by simp⟩
  unfold IsSingleByte
  rw [String.length_ofList, String.toList_ofList]
  induction cs with
  | nil => simp
  | cons c cs ih =>
    have hc := c.utf8Size_pos
    have hle := length_le_utf8ByteSize cs
    rw [utf8ByteSize_ofList_cons, List.length_cons, List.forall_mem_cons, ← ih]
    omega

lemma isSingleByte_append (a b : String) :
    IsSingleByte (a ++ b) ↔ IsSingleByte a ∧ IsSingleByte b := by
  unfold IsSingleByte
  rw [String.toList_append, List.forall_mem_append]

end Text

namespace Label

/-- Read in characters, the label is on the columns from `first` on that come before `past`, and on
no others. -/
def Marks (l : Label) (first past : ℕ) : Prop :=
  ∀ column, l.covers column = true ↔ first ≤ column ∧ column < past

/-- The characters of the source under the label. -/
def characters (l : Label) (source : String) : String :=
  String.ofList ((source.toList.drop l.first).take (l.past - l.first))

variable (l : Label)

lemma covers_iff (column : ℕ) : l.covers column = true ↔ l.first ≤ column ∧ column < l.past := by
  unfold covers
  rw [Bool.and_eq_true, decide_eq_true_iff, decide_eq_true_iff]

/-- Two stretches that are not empty have the same columns only if they have the same ends. -/
lemma marks_iff {first past : ℕ} (hlabel : l.first < l.past) (hpart : first < past) :
    l.Marks first past ↔ l.first = first ∧ l.past = past := by
  unfold Marks
  simp only [covers_iff]
  constructor
  · intro h
    have hstart := h l.first
    have hfirst := h first
    have hlast := h (l.past - 1)
    have hpast := h (past - 1)
    omega
  · rintro ⟨rfl, rfl⟩ column
    exact Iff.rfl

lemma characters_append {front part : String} (rest : String) (hfirst : l.first = front.length)
    (hpast : l.past = front.length + part.length) :
    l.characters (front ++ part ++ rest) = part := by
  unfold characters
  rw [hpast, hfirst, Nat.add_sub_cancel_left, String.append_assoc, String.toList_append,
    List.drop_left' String.length_toList, String.toList_append,
    List.take_left' String.length_toList, String.ofList_toList]

end Label

namespace Opcode.Unresolved

variable {line : String} {fault : Fault}

/-- The label that is handed to the renderer marks just the columns of the opcode if the opcode and
the blanks before it are of characters of one byte each, and then the characters under the label are
the opcode. Otherwise it does not, for its offsets count bytes. -/
theorem label_marks_opcode_iff (h : Unresolved line fault)
    (hopcode : (Mnemonic.parse line).opcode ≠ "") (hsize : line.utf8ByteSize < UInt32.size) :
    (∃ rest, fault.sourceLine =
      Text.leadingBlanks line ++ (Mnemonic.parse line).opcode ++ rest) ∧
    ∃ d, fault.diagnostic? = some d ∧ ∀ origin isColored,
      ((d.report origin isColored).label.Marks (Text.leadingBlanks line).length
          ((Text.leadingBlanks line).length + (Mnemonic.parse line).opcode.length) ↔
        Text.IsSingleByte (Text.leadingBlanks line ++ (Mnemonic.parse line).opcode)) ∧
      (Text.IsSingleByte (Text.leadingBlanks line ++ (Mnemonic.parse line).opcode) →
        (d.report origin isColored).label.characters fault.sourceLine =
          (Mnemonic.parse line).opcode) := by
  obtain ⟨d, hd, hstart, hstop⟩ := h.exists_diagnostic hopcode hsize
  obtain ⟨rest, hline⟩ : ∃ rest, fault.sourceLine =
      Text.leadingBlanks line ++ (Mnemonic.parse line).opcode ++ rest := by
    rw [h.eq_unresolvable]
    exact Mnemonic.exists_eq_leadingBlanks_append hopcode
  refine ⟨⟨rest, hline⟩, d, hd, fun origin isColored => ?_⟩
  have hfirst : (d.report origin isColored).label.first =
      (Text.leadingBlanks line).utf8ByteSize := hstart
  have hpast : (d.report origin isColored).label.past =
      (Text.leadingBlanks line).utf8ByteSize + (Mnemonic.parse line).opcode.utf8ByteSize := hstop
  -- The first offset settles the blanks, and then the second one the opcode.
  have hsingle : Text.IsSingleByte (Text.leadingBlanks line ++ (Mnemonic.parse line).opcode) ↔
      (d.report origin isColored).label.first = (Text.leadingBlanks line).length ∧
        (d.report origin isColored).label.past =
          (Text.leadingBlanks line).length + (Mnemonic.parse line).opcode.length := by
    rw [Text.isSingleByte_append, ← Text.utf8ByteSize_eq_length_iff,
      ← Text.utf8ByteSize_eq_length_iff]
    omega
  constructor
  · have hbytes : 0 < (Mnemonic.parse line).opcode.utf8ByteSize :=
      Nat.pos_of_ne_zero (mt String.utf8ByteSize_eq_zero_iff.mp hopcode)
    have hchars : 0 < (Mnemonic.parse line).opcode.length :=
      Nat.pos_of_ne_zero (mt String.length_eq_zero_iff.mp hopcode)
    rw [Label.marks_iff _ (by omega) (by omega), hsingle]
  · intro hbytes
    obtain ⟨hfirst, hpast⟩ := hsingle.mp hbytes
    rw [hline]
    exact Label.characters_append _ rest hfirst hpast

/-- Characters of two bytes behind the opcode do no harm. -/
theorem label_marks_opcode_indented :
    Unresolved "  FOO Ö;Ö" (.unresolvable "FOO" "  FOO Ö;Ö") ∧
      (Mnemonic.parse "  FOO Ö;Ö").opcode ≠ "" ∧ "  FOO Ö;Ö".utf8ByteSize < UInt32.size ∧
      ∃ d, (Fault.unresolvable "FOO" "  FOO Ö;Ö").diagnostic? = some d ∧
        ∀ origin isColored, (d.report origin isColored).label.Marks 2 5 ∧
          (d.report origin isColored).label.characters "  FOO Ö;Ö" = "FOO" := by
  have hfault : Unresolved "  FOO Ö;Ö" (.unresolvable "FOO" "  FOO Ö;Ö") := ⟨rfl, .inl rfl⟩
  have hopcode : (Mnemonic.parse "  FOO Ö;Ö").opcode ≠ "" := by decide
  have hsize : "  FOO Ö;Ö".utf8ByteSize < UInt32.size := by decide
  have hbytes : Text.IsSingleByte
      (Text.leadingBlanks "  FOO Ö;Ö" ++ (Mnemonic.parse "  FOO Ö;Ö").opcode) :=
    (Text.utf8ByteSize_eq_length_iff _).mp (by decide)
  obtain ⟨-, d, hd, hlabel⟩ := hfault.label_marks_opcode_iff hopcode hsize
  refine ⟨hfault, hopcode, hsize, d, hd, fun origin isColored => ?_⟩
  obtain ⟨hmarks, hcharacters⟩ := hlabel origin isColored
  exact ⟨hmarks.mpr hbytes, hcharacters hbytes⟩

/-- Where characters of the opcode take two bytes, the label goes on over the argument. -/
theorem argument_under_label :
    Unresolved "FÖÖ 1" (.unresolvable "FÖÖ" "FÖÖ 1") ∧
      (Mnemonic.parse "FÖÖ 1").opcode = "FÖÖ" ∧ Text.leadingBlanks "FÖÖ 1" = "" ∧
      ∃ d, (Fault.unresolvable "FÖÖ" "FÖÖ 1").diagnostic? = some d ∧
        ∀ origin isColored, (d.report origin isColored).label.Marks 0 5 ∧
          ¬(d.report origin isColored).label.Marks 0 3 ∧
          (d.report origin isColored).label.characters "FÖÖ 1" = "FÖÖ 1" := by
  have hfault : Unresolved "FÖÖ 1" (.unresolvable "FÖÖ" "FÖÖ 1") := ⟨rfl, .inl rfl⟩
  have hspan := Fault.span_diagnostic?_unresolvable "FÖÖ" "FÖÖ 1"
  have hfind : Span.find? "FÖÖ 1" "FÖÖ" = some ⟨0, 5⟩ := by decide
  rw [hfind] at hspan
  obtain ⟨d, hd, hplace⟩ := Option.map_eq_some_iff.mp hspan
  refine ⟨hfault, by decide, by decide, d, hd, fun origin isColored => ?_⟩
  have hfirst : (d.report origin isColored).label.first = 0 :=
    congrArg (fun s => s.start.toNat) hplace
  have hpast : (d.report origin isColored).label.past = 5 :=
    congrArg (fun s => s.stop.toNat) hplace
  refine ⟨?_, ?_, ?_⟩
  · exact (Label.marks_iff _ (by omega) (by omega)).mpr ⟨hfirst, hpast⟩
  · rw [Label.marks_iff _ (by omega) (by omega)]
    omega
  · unfold Label.characters
    rw [hfirst, hpast]
    decide

end Opcode.Unresolved

end TvmAssembly
