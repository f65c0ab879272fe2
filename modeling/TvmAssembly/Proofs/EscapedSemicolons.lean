import Mathlib.Data.List.Induction
import TvmAssembly.Mnemonic
import TvmAssembly.Proofs.BlankText

/-!
# Escaped semicolons

Which semicolons of a line are escaped, told from the text alone: those behind a run of backslashes
of odd length. The scan for the comment of a line keeps this parity in its state, and a blank resets
it, so that blanks can be dropped or put between two words without escaping anything.
-/

namespace TvmAssembly.Mnemonic

/-- Whether the character behind `cs` is escaped: a run of backslashes of odd length ends `cs`. -/
def escapesNext (cs : List Char) : Bool :=
  (cs.reverse.takeWhile (· = '\\')).length % 2 = 1

/-- A semicolon stands in `cs` that no backslash escapes. -/
def HasBareSemicolon (cs : List Char) : Prop :=
  ∃ front back, cs = front ++ ';' :: back ∧ escapesNext front = false

@[simp]
lemma escapesNext_nil : escapesNext [] = false := rfl

lemma escapesNext_concat (cs : List Char) (c : Char) :
    escapesNext (cs ++ [c]) = decide (c = '\\' ∧ escapesNext cs = false) := by
  unfold escapesNext
  by_cases hc : c = '\\'
  · have hrun : ((cs ++ [c]).reverse.takeWhile (· = '\\')).length =
        (cs.reverse.takeWhile (· = '\\')).length + 1 := by
      simp [hc]
    rw [hrun]
    simp only [hc, true_and, decide_eq_decide, decide_eq_false_iff_not]
    omega
  · simp [hc]

/-- A blank ends every run of backslashes before it. -/
lemma escapesNext_behind_blank {c : Char} (hc : Text.isBlank c = true) (cs ds : List Char) :
    escapesNext (cs ++ c :: ds) = escapesNext ds := by
  induction ds using List.reverseRecOn with
  | nil =>
    rw [escapesNext_concat]
    simp [Text.ne_backslash_of_isBlank hc]
  | append_singleton ds d ih =>
    rw [← List.cons_append, ← List.append_assoc, escapesNext_concat, escapesNext_concat, ih]

/-! ## The scan for the comment -/

lemma splitComment_cons (front : List Char) (c : Char) (cs : List Char)
    (h : ¬(c = ';' ∧ escapesNext front = false)) :
    splitComment (escapesNext front) (c :: cs) =
      (c :: (splitComment (escapesNext (front ++ [c])) cs).1,
        (splitComment (escapesNext (front ++ [c])) cs).2) := by
  rw [splitComment, if_neg h, escapesNext_concat]

/-- The scan that has read `front` finds no comment in `cs` iff it escapes each semicolon there. -/
lemma splitComment_snd_eq_none_iff (front cs : List Char) :
    (splitComment (escapesNext front) cs).2 = none ↔
      ∀ mid back, cs = mid ++ ';' :: back → escapesNext (front ++ mid) = true := by
  induction cs generalizing front with
  | nil => simp [splitComment]
  | cons c cs ih =>
    by_cases h : c = ';' ∧ escapesNext front = false
    · rw [splitComment, if_pos h]
      refine iff_of_false (by simp) (fun hall => ?_)
      have hfront := hall [] cs (by simp [h.1])
      simp [h.2] at hfront
    · rw [splitComment_cons front c cs h, ih]
      constructor
      · intro hall mid back hmid
        cases mid with
        | nil =>
          have hc : c = ';' := (List.cons.inj hmid).1
          simpa using fun hfront => h ⟨hc, hfront⟩
        | cons d mid =>
          obtain ⟨rfl, hcs⟩ := List.cons.inj hmid
          have hmid' := hall mid back hcs
          rwa [List.append_assoc] at hmid'
      · intro hall mid back hmid
        have hcons := hall (c :: mid) back (by rw [hmid, List.cons_append])
        rwa [List.append_assoc]

theorem splitComment_snd_eq_none_iff_not_hasBareSemicolon (cs : List Char) :
    (splitComment false cs).2 = none ↔ ¬HasBareSemicolon cs := by
  have h := splitComment_snd_eq_none_iff [] cs
  rw [escapesNext_nil] at h
  simp [h, HasBareSemicolon]

/-- The scan goes on behind a text without a comment in the state that the text leaves it in. -/
lemma splitComment_append (front cs ds : List Char)
    (h : (splitComment (escapesNext front) cs).2 = none) :
    splitComment (escapesNext front) (cs ++ ds) =
      (cs ++ (splitComment (escapesNext (front ++ cs)) ds).1,
        (splitComment (escapesNext (front ++ cs)) ds).2) := by
  induction cs generalizing front with
  | nil => simp
  | cons c cs ih =>
    have hc : ¬(c = ';' ∧ escapesNext front = false) := by
      intro hbare
      rw [splitComment, if_pos hbare] at h
      simp at h
    rw [splitComment_cons front c cs hc] at h
    rw [List.cons_append, splitComment_cons front c (cs ++ ds) hc, ih (front ++ [c]) h]
    simp

lemma splitComment_fst_snd (escaped : Bool) (cs : List Char) :
    (splitComment escaped (splitComment escaped cs).1).2 = none := by
  induction cs generalizing escaped with
  | nil => rfl
  | cons c cs ih =>
    rw [splitComment]
    split
    · rfl
    · next h =>
      rw [splitComment, if_neg h]
      exact ih _

/-- The code of a line holds no bare semicolon: the first one starts the comment. -/
theorem not_hasBareSemicolon_splitComment (cs : List Char) :
    ¬HasBareSemicolon (splitComment false cs).1 := by
  rw [← splitComment_snd_eq_none_iff_not_hasBareSemicolon]
  exact splitComment_fst_snd false cs

/-- A comment put behind code and a blank is read back, even if the code ends in a backslash. -/
theorem splitComment_code_comment {code : List Char} (h : ¬HasBareSemicolon code)
    (comment : List Char) :
    splitComment false (code ++ ' ' :: ';' :: comment) = (code ++ [' '], some comment) := by
  have hcode := (splitComment_snd_eq_none_iff_not_hasBareSemicolon code).mpr h
  rw [← escapesNext_nil] at hcode ⊢
  rw [splitComment_append [] code _ hcode, splitComment_cons _ ' ' _ (by simp),
    escapesNext_behind_blank Text.isBlank_space, escapesNext_nil, splitComment]
  simp

theorem splitComment_code {code : List Char} (h : ¬HasBareSemicolon code) :
    splitComment false code = (code, none) := by
  have hcode := (splitComment_snd_eq_none_iff_not_hasBareSemicolon code).mpr h
  have hline := splitComment_eq false code
  rw [hcode] at hline
  exact Prod.ext (by simpa using hline.symm) hcode

/-! ## Parts of a text -/

lemma HasBareSemicolon.append {cs : List Char} (h : HasBareSemicolon cs) (ds : List Char) :
    HasBareSemicolon (cs ++ ds) := by
  obtain ⟨front, back, rfl, hfront⟩ := h
  exact ⟨front, back ++ ds, by simp, hfront⟩

/-- A blank separates: nothing before it escapes a semicolon behind it. -/
theorem hasBareSemicolon_append_blank_cons_iff {c : Char} (hc : Text.isBlank c = true)
    (cs ds : List Char) :
    HasBareSemicolon (cs ++ c :: ds) ↔ HasBareSemicolon cs ∨ HasBareSemicolon ds := by
  constructor
  · rintro ⟨front, back, heq, hfront⟩
    rcases List.append_eq_append_iff.mp heq with ⟨mid, hmid, hds⟩ | ⟨mid, hmid, hback⟩
    · cases mid with
      | nil => exact absurd (List.cons.inj hds).1 (Text.ne_semicolon_of_isBlank hc)
      | cons d mid =>
        obtain ⟨rfl, hds'⟩ := List.cons.inj hds
        rw [hmid, escapesNext_behind_blank hc] at hfront
        exact .inr ⟨mid, back, hds', hfront⟩
    · cases mid with
      | nil => exact absurd (List.cons.inj hback).1.symm (Text.ne_semicolon_of_isBlank hc)
      | cons d mid =>
        obtain ⟨rfl, -⟩ := List.cons.inj hback
        exact .inl ⟨front, mid, hmid, hfront⟩
  · rintro (h | ⟨front, back, rfl, hfront⟩)
    · exact h.append _
    · refine ⟨cs ++ c :: front, back, by simp, ?_⟩
      rwa [escapesNext_behind_blank hc]

lemma not_hasBareSemicolon_trim {cs : List Char} (h : ¬HasBareSemicolon cs) :
    ¬HasBareSemicolon (Text.trim cs) := by
  have hstart : ¬HasBareSemicolon (Text.trimStart cs) := by
    induction cs with
    | nil => exact h
    | cons c cs ih =>
      rw [Text.trimStart, List.dropWhile_cons]
      split
      · next hc =>
        apply ih
        intro hcs
        exact h ((hasBareSemicolon_append_blank_cons_iff hc [] cs).mpr (.inr hcs))
      · exact h
  intro htrim
  obtain ⟨tail, htail⟩ : Text.trim cs <+: Text.trimStart cs := by
    rw [Text.trim, Text.trimEnd, ← List.reverse_suffix, List.reverse_reverse]
    exact List.dropWhile_suffix _
  exact hstart (htail ▸ htrim.append tail)

end TvmAssembly.Mnemonic
