import Mathlib.Data.List.DropRight
import Mathlib.Data.List.TakeWhile
import Mathlib.Tactic.Lemma
import TvmAssembly.Text.Blank

/-!
# Words and the blanks around them

What trimming and splitting leave of a text. Blanks put around a trimmed text are taken off again.
-/

namespace TvmAssembly.Text

lemma isBlank_space : isBlank ' ' = true := by decide

lemma ne_backslash_of_isBlank {c : Char} (h : isBlank c = true) : c ≠ '\\' := by
  rintro rfl
  revert h
  decide

lemma ne_semicolon_of_isBlank {c : Char} (h : isBlank c = true) : c ≠ ';' := by
  rintro rfl
  revert h
  decide

/-- No blank stands at either end of the text. -/
structure IsTrimmed (cs : List Char) : Prop where
  head : ∀ c ∈ cs.head?, isBlank c = false
  last : ∀ c ∈ cs.getLast?, isBlank c = false

lemma trim_eq_rdropWhile (cs : List Char) : trim cs = (trimStart cs).rdropWhile isBlank := rfl

theorem isTrimmed_trim (cs : List Char) : IsTrimmed (trim cs) := by
  rw [trim_eq_rdropWhile]
  constructor
  · intro c hc
    obtain ⟨tail, htail⟩ := List.rdropWhile_prefix isBlank (trimStart cs)
    have hstart := List.head?_dropWhile_not isBlank cs
    rw [← trimStart, ← htail, List.head?_append, Option.mem_def.mp hc] at hstart
    simpa using hstart
  · intro c hc
    have hne : (trimStart cs).rdropWhile isBlank ≠ [] := by
      intro hnil
      simp [hnil] at hc
    have hlast := List.rdropWhile_last_not isBlank (trimStart cs) hne
    rw [List.getLast?_eq_some_getLast hne, Option.mem_def, Option.some_inj] at hc
    rwa [hc, Bool.not_eq_true] at hlast

/-- Trimming takes away the blanks around a trimmed text and nothing else. -/
theorem trim_blanks_append {front cs back : List Char} (h : IsTrimmed cs)
    (hfront : ∀ c ∈ front, isBlank c = true) (hback : ∀ c ∈ back, isBlank c = true) :
    trim (front ++ (cs ++ back)) = cs := by
  rw [trim_eq_rdropWhile, trimStart, List.dropWhile_append_of_pos hfront]
  cases cs with
  | nil =>
    rw [List.nil_append, List.dropWhile_eq_nil_iff.mpr hback]
    rfl
  | cons c cs =>
    have hc : isBlank c = false := h.head c rfl
    have hself : ((c :: cs) ++ back).dropWhile isBlank = (c :: cs) ++ back := by simp [hc]
    have hrev : ∀ d ∈ back.reverse, isBlank d = true := fun d hd =>
      hback d (List.mem_reverse.mp hd)
    have hkeep : (c :: cs).rdropWhile isBlank = c :: cs := by
      rw [List.rdropWhile_eq_self_iff]
      intro hne
      rw [h.last _ (List.getLast?_eq_some_getLast hne)]
      exact Bool.false_ne_true
    rw [hself, List.rdropWhile, List.reverse_append, List.dropWhile_append_of_pos hrev]
    exact hkeep

lemma isTrimmed_of_forall_not_blank {cs : List Char} (h : ∀ c ∈ cs, isBlank c = false) :
    IsTrimmed cs :=
  ⟨fun c hc => h c (List.mem_of_mem_head? hc), fun c hc => h c (List.mem_of_mem_getLast? hc)⟩

lemma splitWord_eq {word rest : List Char} (hword : ∀ c ∈ word, isBlank c = false)
    (hrest : ∀ c ∈ rest.head?, isBlank c = true) : splitWord (word ++ rest) = (word, rest) := by
  have hpos : ∀ c ∈ word, (!isBlank c) = true := by
    intro c hc
    rw [hword c hc]
    rfl
  rw [splitWord, List.takeWhile_append_of_pos hpos, List.dropWhile_append_of_pos hpos]
  cases rest with
  | nil => simp
  | cons c rest => simp [hrest c rfl]

lemma splitWord_append (cs : List Char) : (splitWord cs).1 ++ (splitWord cs).2 = cs :=
  List.takeWhile_append_dropWhile

lemma solid_splitWord (cs : List Char) : ∀ c ∈ (splitWord cs).1, isBlank c = false := by
  intro c hc
  simpa using List.mem_takeWhile_imp hc

/-- The rest behind the first word is empty or starts with the blank that ended the word. -/
lemma splitWord_rest (cs : List Char) :
    (splitWord cs).2 = [] ∨ ∃ b rest, (splitWord cs).2 = b :: rest ∧ isBlank b = true := by
  have hhead := List.head?_dropWhile_not (fun c => !isBlank c) cs
  have hdrop : (splitWord cs).2 = cs.dropWhile (fun c => !isBlank c) := rfl
  rw [← hdrop] at hhead
  cases hrest : (splitWord cs).2 with
  | nil => exact .inl rfl
  | cons b rest =>
    rw [hrest] at hhead
    exact .inr ⟨b, rest, rfl, by simpa using hhead⟩

end TvmAssembly.Text
