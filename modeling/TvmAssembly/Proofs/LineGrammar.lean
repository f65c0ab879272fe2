import Mathlib.Algebra.Group.Nat.Even
import Mathlib.Order.Bounds.Basic
import TvmAssembly.Proofs.EscapedSemicolons

/-!
# The grammar of a line

How a line reads, said of the text alone. Its comment starts behind the first semicolon that stands
directly behind an even number of backslashes (`Mnemonic.BareSemicolonAt`). In the code before it
the first word is the opcode, and the rest without the blanks around it is the argument
(`Text.CodeParts`). A scan of the line finds that semicolon as an offset in bytes, and the line is
cut there: no cut is inside a character, and what comes out is the one mnemonic that the line reads
as.
-/

namespace TvmAssembly

namespace Text

/-! ## Cuts between bytes -/

/-- The bytes from one offset up to another, as a text. There is none if a cut is inside a character
or behind the end of the text. -/
def slice? (text : String) (start stop : ℕ) : Option String :=
  if h : (String.Pos.Raw.mk start).IsValid text ∧ (String.Pos.Raw.mk stop).IsValid text ∧
      start ≤ stop then
    some (text.extract ⟨⟨start⟩, h.1⟩ ⟨⟨stop⟩, h.2.1⟩)
  else none

lemma utf8ByteSize_ofList_cons (c : Char) (cs : List Char) :
    (String.ofList (c :: cs)).utf8ByteSize = c.utf8Size + (String.ofList cs).utf8ByteSize := by
  rw [← List.singleton_append, String.ofList_append, String.utf8ByteSize_append,
    ← String.singleton_eq_ofList, String.utf8ByteSize_singleton]

/-- A cut behind whole characters is not inside a character. -/
lemma isValid_utf8ByteSize (front back : String) :
    (String.Pos.Raw.mk front.utf8ByteSize).IsValid (front ++ back) := by
  rw [String.Pos.Raw.isValid_iff_exists_append]
  exact ⟨front, back, rfl, rfl⟩

lemma slice?_append (front mid back : String) :
    slice? (front ++ mid ++ back) front.utf8ByteSize (front.utf8ByteSize + mid.utf8ByteSize) =
      some mid := by
  have hstart : (String.Pos.Raw.mk front.utf8ByteSize).IsValid (front ++ mid ++ back) := by
    rw [String.append_assoc]
    exact isValid_utf8ByteSize front (mid ++ back)
  have hstop : (String.Pos.Raw.mk (front.utf8ByteSize + mid.utf8ByteSize)).IsValid
      (front ++ mid ++ back) := by
    rw [← String.utf8ByteSize_append]
    exact isValid_utf8ByteSize (front ++ mid) back
  have hbytes : (front ++ mid ++ back).toByteArray =
      front.toByteArray ++ (mid.toByteArray ++ back.toByteArray) := by
    rw [String.append_assoc, String.toByteArray_append, String.toByteArray_append]
  have hmid : (front.toByteArray ++ (mid.toByteArray ++ back.toByteArray)).extract
      (front.toByteArray.size + 0) (front.toByteArray.size + mid.toByteArray.size) =
        mid.toByteArray := by
    rw [ByteArray.extract_append_size_add]
    exact ByteArray.extract_append_eq_left rfl
  unfold slice?
  rw [dif_pos ⟨hstart, hstop, Nat.le_add_right _ _⟩, Option.some_inj, ← String.toByteArray_inj,
    String.toByteArray_extract, hbytes]
  exact hmid

/-! ## Words of code -/

/-- The longest prefix of the text without a blank. -/
structure IsFirstWord (word text : List Char) : Prop where
  starts : word <+: text
  solid : ∀ c ∈ word, isBlank c = false
  longest : ∀ w, w <+: text → (∀ c ∈ w, isBlank c = false) → w <+: word

lemma isFirstWord_splitWord (cs : List Char) : IsFirstWord (splitWord cs).1 cs := by
  refine ⟨⟨(splitWord cs).2, splitWord_append cs⟩, solid_splitWord cs, ?_⟩
  intro w hw hsolid
  have hword : (splitWord cs).1 <+: cs := ⟨(splitWord cs).2, splitWord_append cs⟩
  rcases List.prefix_or_prefix_of_prefix hw hword with h | ⟨more, hmore⟩
  · exact h
  · -- Behind the word there is a blank or nothing, so no prefix without a blank goes further.
    cases more with
    | nil =>
      rw [List.append_nil] at hmore
      exact ⟨[], (List.append_nil w).trans hmore.symm⟩
    | cons c more =>
      obtain ⟨tail, htail⟩ := hw
      have hrest : (splitWord cs).2 = c :: (more ++ tail) := by
        have hcs : (splitWord cs).1 ++ (splitWord cs).2 =
            (splitWord cs).1 ++ c :: (more ++ tail) := by
          rw [splitWord_append, ← List.cons_append, ← List.append_assoc, hmore, htail]
        exact List.append_cancel_left hcs
      have hc : isBlank c = false := hsolid c (by simp [← hmore])
      rcases splitWord_rest cs with hnil | ⟨b, rest, hcons, hb⟩
      · rw [hnil] at hrest
        cases hrest
      · rw [hcons] at hrest
        rw [(List.cons.inj hrest).1, hc] at hb
        cases hb

/-- Code taken apart: the blanks that it starts with, its first word, and the rest, which is an
argument between blanks. The argument can be empty. -/
structure CodeParts (code : List Char) where
  lead : List Char
  opcode : List Char
  gap : List Char
  arg : List Char
  trail : List Char
  code_eq : code = lead ++ (opcode ++ (gap ++ (arg ++ trail)))
  blank_lead : ∀ c ∈ lead, isBlank c = true
  head_solid : ∀ c ∈ (opcode ++ (gap ++ (arg ++ trail))).head?, isBlank c = false
  firstWord : IsFirstWord opcode (opcode ++ (gap ++ (arg ++ trail)))
  blank_gap : ∀ c ∈ gap, isBlank c = true
  blank_trail : ∀ c ∈ trail, isBlank c = true
  trimmed : IsTrimmed arg

/-- The blanks that trimming takes off a text stand around what it leaves. -/
lemma blanks_append_trim (cs : List Char) :
    cs.takeWhile isBlank ++ (trim cs ++ (trimStart cs).rtakeWhile isBlank) = cs := by
  rw [trim_eq_rdropWhile, List.rdropWhile_append_rtakeWhile]
  exact List.takeWhile_append_dropWhile

namespace CodeParts

variable {code : List Char}

/-- The argument, absent if it is empty. -/
def arg? (parts : CodeParts code) : Option (List Char) :=
  if parts.arg = [] then none else some parts.arg

/-- Any code can be taken apart. -/
def ofCode (code : List Char) : CodeParts code where
  lead := code.takeWhile isBlank
  opcode := (splitWord (trimStart code)).1
  gap := (splitWord (trimStart code)).2.takeWhile isBlank
  arg := trim (splitWord (trimStart code)).2
  trail := (trimStart (splitWord (trimStart code)).2).rtakeWhile isBlank
  code_eq := by
    rw [blanks_append_trim, splitWord_append]
    exact List.takeWhile_append_dropWhile.symm
  blank_lead := fun c hc => List.mem_takeWhile_imp hc
  head_solid := by
    rw [blanks_append_trim, splitWord_append]
    intro c hc
    have hhead := List.head?_dropWhile_not isBlank code
    rw [← trimStart, Option.mem_def.mp hc] at hhead
    simpa using hhead
  firstWord := by
    rw [blanks_append_trim, splitWord_append]
    exact isFirstWord_splitWord (trimStart code)
  blank_gap := fun c hc => List.mem_takeWhile_imp hc
  blank_trail := fun c hc => List.mem_rtakeWhile_imp hc
  trimmed := isTrimmed_trim _

/-- Behind the first word there is a blank, or there is nothing. -/
lemma head?_gap_append (parts : CodeParts code) (hne : parts.arg ≠ []) :
    ∀ c ∈ (parts.gap ++ parts.arg).head?, isBlank c = true := by
  intro c hc
  cases hgap : parts.gap with
  | cons b gap =>
    rw [hgap, List.cons_append, List.head?_cons, Option.mem_some_iff] at hc
    rw [← hc]
    exact parts.blank_gap b (by simp [hgap])
  | nil =>
    -- An argument that follows at once would be a part of the word.
    rw [hgap, List.nil_append] at hc
    have hsolid : isBlank c = false := parts.trimmed.head c hc
    obtain ⟨d, arg, harg⟩ := List.exists_cons_of_ne_nil hne
    have hcd : d = c := by simpa [harg] using hc
    have hlonger : parts.opcode ++ [c] <+: parts.opcode := by
      apply parts.firstWord.longest
      · rw [hgap, harg, hcd]
        exact ⟨arg ++ parts.trail, by simp⟩
      · intro e he
        rcases List.mem_append.mp he with he | he
        · exact parts.firstWord.solid e he
        · rwa [List.mem_singleton.mp he]
    have hlength := hlonger.length_le
    rw [List.length_append, List.length_singleton] at hlength
    omega

/-- However code is taken apart, its parts are those that the split gives. -/
lemma splitCode_eq (parts : CodeParts code) :
    Mnemonic.splitCode code = (parts.opcode, parts.arg?) := by
  unfold Mnemonic.splitCode arg?
  by_cases harg : parts.arg = []
  · have hback : ∀ c ∈ parts.gap ++ parts.trail, isBlank c = true := by
      intro c hc
      rcases List.mem_append.mp hc with hc | hc
      · exact parts.blank_gap c hc
      · exact parts.blank_trail c hc
    have hcode : code = parts.lead ++ (parts.opcode ++ (parts.gap ++ parts.trail)) := by
      have h := parts.code_eq
      rwa [harg, List.nil_append] at h
    have htrim : trim code = parts.opcode := by
      conv_lhs => rw [hcode]
      exact trim_blanks_append (isTrimmed_of_forall_not_blank parts.firstWord.solid)
        parts.blank_lead hback
    have hsplit : splitWord (parts.opcode ++ []) = (parts.opcode, []) :=
      splitWord_eq parts.firstWord.solid (by simp)
    rw [List.append_nil] at hsplit
    simp only [htrim, hsplit, if_pos harg]
    rfl
  · have hcore : IsTrimmed (parts.opcode ++ (parts.gap ++ parts.arg)) := by
      constructor
      · intro c hc
        apply parts.head_solid
        have hne : parts.opcode ++ (parts.gap ++ parts.arg) ≠ [] := by simp [harg]
        have hassoc : parts.opcode ++ (parts.gap ++ (parts.arg ++ parts.trail)) =
            (parts.opcode ++ (parts.gap ++ parts.arg)) ++ parts.trail := by simp
        rwa [hassoc, List.head?_append_of_ne_nil _ hne]
      · intro c hc
        apply parts.trimmed.last
        rwa [← List.append_assoc, List.getLast?_append_of_ne_nil _ harg] at hc
    have hcode : code =
        parts.lead ++ ((parts.opcode ++ (parts.gap ++ parts.arg)) ++ parts.trail) := by
      have h := parts.code_eq
      simpa using h
    have htrim : trim code = parts.opcode ++ (parts.gap ++ parts.arg) := by
      conv_lhs => rw [hcode]
      exact trim_blanks_append hcore parts.blank_lead parts.blank_trail
    have hsplit : splitWord (parts.opcode ++ (parts.gap ++ parts.arg)) =
        (parts.opcode, parts.gap ++ parts.arg) :=
      splitWord_eq parts.firstWord.solid (parts.head?_gap_append harg)
    have hrest : trim (parts.gap ++ (parts.arg ++ [])) = parts.arg :=
      trim_blanks_append parts.trimmed parts.blank_gap (by simp)
    rw [List.append_nil] at hrest
    simp only [htrim, hsplit, hrest, if_neg harg]

end CodeParts

end Text

namespace Mnemonic

/-! ## Where the comment starts -/

/-- At the byte offset `p` of the line there is a semicolon, and an even number of backslashes stands
directly before it. -/
def BareSemicolonAt (line : String) (p : ℕ) : Prop :=
  ∃ front back : String, line = front ++ ";" ++ back ∧ p = front.utf8ByteSize ∧
    Even (front.toList.rtakeWhile (· = '\\')).length

lemma escapesNext_eq_false_iff (cs : List Char) :
    escapesNext cs = false ↔ Even (cs.rtakeWhile (· = '\\')).length := by
  unfold escapesNext List.rtakeWhile
  rw [decide_eq_false_iff_not, List.length_reverse, Nat.even_iff]
  omega

/-- The offset of the first semicolon that is not escaped, for a line read from `offset` on. -/
def semicolonFrom (escaped : Bool) (offset : ℕ) : List Char → Option ℕ
  | [] => none
  | c :: cs =>
    if c = '\\' then semicolonFrom (!escaped) (offset + c.utf8Size) cs
    else if c = ';' ∧ escaped = false then some offset
    else semicolonFrom false (offset + c.utf8Size) cs

/-- Reads a line that is cut at offsets in bytes. There is no result if a cut cannot be made. -/
def parseAtOffsets? (line : String) : Option Mnemonic := do
  let (code, comment) ← match semicolonFrom false 0 line.toList with
    | some p => do
      let code ← Text.slice? line 0 p
      let comment ← Text.slice? line (p + 1) line.utf8ByteSize
      pure (code, some comment)
    | none => pure (line, none)
  let (opcode, arg) := splitCode code.toList
  pure ⟨String.ofList opcode, arg.map String.ofList, comment⟩

/-- The line reads as the mnemonic. If it has a semicolon that no backslash escapes, the first of
them stands between code and comment, else all of the line is code. -/
inductive Reads (line : String) (m : Mnemonic) : Prop
  | commented {p : ℕ} {code comment : String} (parts : Text.CodeParts code.toList)
      (first : IsLeast {q | BareSemicolonAt line q} p)
      (code_eq : Text.slice? line 0 p = some code)
      (comment_eq : Text.slice? line (p + 1) line.utf8ByteSize = some comment)
      (reads : m = ⟨String.ofList parts.opcode, parts.arg?.map String.ofList, some comment⟩)
  | plain (parts : Text.CodeParts line.toList) (closed : ∀ q, ¬BareSemicolonAt line q)
      (reads : m = ⟨String.ofList parts.opcode, parts.arg?.map String.ofList, none⟩)

lemma bareSemicolonAt_iff {line : String} {p : ℕ} :
    BareSemicolonAt line p ↔ ∃ front back, line.toList = front ++ ';' :: back ∧
      p = (String.ofList front).utf8ByteSize ∧ escapesNext front = false := by
  constructor
  · rintro ⟨front, back, rfl, rfl, heven⟩
    refine ⟨front.toList, back.toList, by simp, by simp, ?_⟩
    rwa [escapesNext_eq_false_iff]
  · rintro ⟨front, back, hline, rfl, hfront⟩
    refine ⟨String.ofList front, String.ofList back, ?_, rfl, ?_⟩
    · rw [← String.toList_inj, hline]
      simp
    · rwa [String.toList_ofList, ← escapesNext_eq_false_iff]

/-- The scan stops at a semicolon that is not escaped. -/
lemma escapesNext_splitComment {front cs comment : List Char}
    (h : (splitComment (escapesNext front) cs).2 = some comment) :
    escapesNext (front ++ (splitComment (escapesNext front) cs).1) = false := by
  induction cs generalizing front with
  | nil => cases h
  | cons c cs ih =>
    by_cases hc : c = ';' ∧ escapesNext front = false
    · rw [splitComment, if_pos hc, List.append_nil]
      exact hc.2
    · rw [splitComment_cons front c cs hc] at h ⊢
      have hnext := ih h
      rwa [List.append_assoc, List.singleton_append] at hnext

/-- The offset that is found is that of the cut between code and comment. -/
lemma semicolonFrom_eq (escaped : Bool) (offset : ℕ) (cs : List Char) :
    semicolonFrom escaped offset cs = (splitComment escaped cs).2.map fun _ =>
      offset + (String.ofList (splitComment escaped cs).1).utf8ByteSize := by
  induction cs generalizing escaped offset with
  | nil => rfl
  | cons c cs ih =>
    unfold semicolonFrom splitComment
    by_cases hback : c = '\\'
    · have hsemi : ¬(c = ';' ∧ escaped = false) := by
        rintro ⟨hc, -⟩
        rw [hback] at hc
        exact absurd hc (by decide)
      have hnext : (!escaped) = decide (c = '\\' ∧ escaped = false) := by
        cases escaped <;> simp [hback]
      rw [if_pos hback, if_neg hsemi, hnext, ih]
      simp only [Text.utf8ByteSize_ofList_cons, Nat.add_assoc]
    · have hnext : false = decide (c = '\\' ∧ escaped = false) := by simp [hback]
      rw [if_neg hback]
      by_cases hsemi : c = ';' ∧ escaped = false
      · rw [if_pos hsemi, if_pos hsemi]
        rfl
      · rw [if_neg hsemi, if_neg hsemi]
        conv_lhs => rw [hnext]
        rw [ih]
        simp only [Text.utf8ByteSize_ofList_cons, Nat.add_assoc]

/-- The code of a line ends at the first semicolon that is not escaped, or with the line. -/
lemma splitComment_toList (line : String) :
    (∃ code comment : String, line = code ++ ";" ++ comment ∧
      splitComment false line.toList = (code.toList, some comment.toList) ∧
      IsLeast {q | BareSemicolonAt line q} code.utf8ByteSize) ∨
    (splitComment false line.toList = (line.toList, none) ∧ ∀ q, ¬BareSemicolonAt line q) := by
  have hline := splitComment_eq false line.toList
  cases hcomment : (splitComment false line.toList).2 with
  | none =>
    right
    have hbare := hcomment
    rw [splitComment_snd_eq_none_iff_not_hasBareSemicolon] at hbare
    refine ⟨splitComment_code hbare, fun q hq => hbare ?_⟩
    obtain ⟨front, back, hcut, -, hfront⟩ := bareSemicolonAt_iff.mp hq
    exact ⟨front, back, hcut, hfront⟩
  | some comment =>
    left
    have hcode := @escapesNext_splitComment [] _ _ hcomment
    rw [escapesNext_nil, List.nil_append] at hcode
    have hclosed := not_hasBareSemicolon_splitComment line.toList
    rw [hcomment, Option.elim_some] at hline
    refine ⟨String.ofList (splitComment false line.toList).1, String.ofList comment, ?_, ?_, ?_, ?_⟩
    · rw [← String.toList_inj]
      simpa using hline
    · rw [String.toList_ofList, String.toList_ofList, ← hcomment]
    · exact bareSemicolonAt_iff.mpr ⟨_, comment, hline, rfl, hcode⟩
    · intro q hq
      obtain ⟨front, back, hcut, rfl, hfront⟩ := bareSemicolonAt_iff.mp hq
      have hcuts := hcut.symm.trans hline
      rcases List.append_eq_append_iff.mp hcuts with ⟨mid, hmid, htail⟩ | ⟨mid, hmid, -⟩
      · -- A cut before this one would leave a semicolon that is not escaped in the code.
        cases mid with
        | nil =>
          rw [List.append_nil] at hmid
          rw [hmid]
        | cons d mid =>
          obtain ⟨rfl, -⟩ := List.cons.inj htail
          exact absurd ⟨front, mid, hmid, hfront⟩ hclosed
      · rw [hmid, String.ofList_append, String.utf8ByteSize_append]
        exact Nat.le_add_right _ _

lemma slice?_code (code comment : String) :
    Text.slice? (code ++ ";" ++ comment) 0 code.utf8ByteSize = some code := by
  have h := Text.slice?_append "" code (";" ++ comment)
  simpa [String.append_assoc] using h

lemma slice?_comment (code comment : String) :
    Text.slice? (code ++ ";" ++ comment) (code.utf8ByteSize + 1)
      (code ++ ";" ++ comment).utf8ByteSize = some comment := by
  have h := Text.slice?_append (code ++ ";") comment ""
  have hsemi : ";".utf8ByteSize = 1 := rfl
  simpa [String.utf8ByteSize_append, hsemi] using h

/-- All cuts can be made, and the line is read as it is character by character. -/
lemma parseAtOffsets?_eq (line : String) : parseAtOffsets? line = some (parse line) := by
  unfold parseAtOffsets? parse
  rw [semicolonFrom_eq]
  rcases splitComment_toList line with ⟨code, comment, hline, hsplit, -⟩ | ⟨hsplit, -⟩
  · rw [hsplit]
    simp only [Option.map_some, String.ofList_toList, Nat.zero_add]
    rw [hline, slice?_code, slice?_comment]
    rfl
  · rw [hsplit]
    rfl

lemma parse_eq_of_splitComment {line : String} {code : List Char} {comment : Option (List Char)}
    (h : splitComment false line.toList = (code, comment)) (parts : Text.CodeParts code) :
    parse line = ⟨String.ofList parts.opcode, parts.arg?.map String.ofList,
      comment.map String.ofList⟩ := by
  unfold parse
  rw [h]
  dsimp only
  rw [parts.splitCode_eq]

lemma reads_parse (line : String) : Reads line (parse line) := by
  rcases splitComment_toList line with ⟨code, comment, hline, hsplit, hleast⟩ | ⟨hsplit, hbare⟩
  · apply Reads.commented (Text.CodeParts.ofCode code.toList) hleast
    · rw [hline]
      exact slice?_code code comment
    · rw [hline]
      exact slice?_comment code comment
    · rw [parse_eq_of_splitComment hsplit, Option.map_some, String.ofList_toList]
  · apply Reads.plain (Text.CodeParts.ofCode line.toList) hbare
    rw [parse_eq_of_splitComment hsplit, Option.map_none]

/-- No line reads as two mnemonics. -/
lemma Reads.eq_parse {line : String} {m : Mnemonic} (h : Reads line m) : m = parse line := by
  rcases splitComment_toList line with ⟨code, comment, hline, hsplit, hleast⟩ | ⟨hsplit, hbare⟩
  · cases h with
    | plain parts closed reads => exact absurd hleast.1 (closed _)
    | @commented p code' comment' parts first code_eq comment_eq reads =>
      obtain rfl := first.unique hleast
      rw [hline, slice?_code, Option.some_inj] at code_eq
      rw [hline, slice?_comment, Option.some_inj] at comment_eq
      subst code_eq comment_eq
      rw [reads, parse_eq_of_splitComment hsplit parts, Option.map_some, String.ofList_toList]
  · cases h with
    | plain parts closed reads => rw [reads, parse_eq_of_splitComment hsplit parts, Option.map_none]
    | commented parts first code_eq comment_eq reads => exact absurd first.1 (hbare _)

/-- A line is read as the one mnemonic that the grammar gives for it. Read by a scan and by cuts at
offsets in bytes it gives the same, whatever characters it holds: the cut at a semicolon that is not
escaped and the one behind it are between characters, so that they can be made. -/
theorem parse_eq_iff_reads (line : String) :
    (∀ m, parse line = m ↔ Reads line m) ∧
    parseAtOffsets? line = some (parse line) ∧
    (∀ p, semicolonFrom false 0 line.toList = some p ↔ IsLeast {q | BareSemicolonAt line q} p) ∧
    ∀ p, BareSemicolonAt line p → (String.Pos.Raw.mk p).IsValid line ∧
      (String.Pos.Raw.mk (p + 1)).IsValid line := by
  refine ⟨fun m => ⟨?_, fun h => h.eq_parse.symm⟩, parseAtOffsets?_eq line, fun p => ?_, ?_⟩
  · rintro rfl
    exact reads_parse line
  · rw [semicolonFrom_eq]
    rcases splitComment_toList line with ⟨code, comment, -, hsplit, hleast⟩ | ⟨hsplit, hbare⟩
    · rw [hsplit, Option.map_some, String.ofList_toList, Nat.zero_add, Option.some_inj]
      constructor
      · rintro rfl
        exact hleast
      · exact hleast.unique
    · rw [hsplit]
      exact iff_of_false (by simp) fun h => hbare p h.1
  · rintro p ⟨front, back, rfl, rfl, -⟩
    constructor
    · rw [String.append_assoc]
      exact Text.isValid_utf8ByteSize front (";" ++ back)
    · have hsemi : front.utf8ByteSize + 1 = (front ++ ";").utf8ByteSize := by
        rw [String.utf8ByteSize_append]
        rfl
      rw [hsemi]
      exact Text.isValid_utf8ByteSize (front ++ ";") back

/-- A cut behind a character of two bytes, with a backslash before it that is itself escaped. -/
theorem parse_eq_iff_reads_sample :
    BareSemicolonAt "é\\\\;x" 4 ∧ (String.Pos.Raw.mk 4).IsValid "é\\\\;x" ∧
      (String.Pos.Raw.mk 5).IsValid "é\\\\;x" := by
  have hbare : BareSemicolonAt "é\\\\;x" 4 := ⟨"é\\\\", "x", by decide, by decide, by decide⟩
  exact ⟨hbare, (parse_eq_iff_reads "é\\\\;x").2.2.2 4 hbare⟩

/-- Backslashes escape each other and then semicolons; a blank of three bytes ends the opcode. -/
example : parse "\u3000PUSHINT\u30001\\;2 \\\\;;é" =
    ⟨"PUSHINT", some "1\\;2 \\\\", some ";é"⟩ := by rfl

end Mnemonic

end TvmAssembly
