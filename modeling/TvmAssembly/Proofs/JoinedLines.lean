import Mathlib.Tactic.Lemma
import TvmAssembly.Text.Lines

/-!
# Lines of joined texts

A text that does not end in a line feed goes on, in the middle of its last line, with what is put
behind it. Only a line feed makes more than one line of a text.
-/

namespace TvmAssembly.Text

lemma joinLine_ne_nil (c : Char) (ls : List (List Char)) : joinLine c ls ≠ [] := by
  cases ls <;> simp [joinLine]

/-- A character joins a line unless it ends one itself, or belongs to the end of one. -/
lemma lineChars_cons {c : Char} {cs : List Char} (hc : c ≠ '\n')
    (hcr : c = '\r' → cs.head? ≠ some '\n') : lineChars (c :: cs) = joinLine c (lineChars cs) := by
  rw [lineChars]
  · exact hc
  · rintro rest rfl rfl
    exact hcr rfl rfl

lemma lineChars_eq_nil_iff {cs : List Char} : lineChars cs = [] ↔ cs = [] := by
  fun_cases lineChars cs with
  | case4 c cs => simpa using joinLine_ne_nil c (lineChars cs)
  | _ => simp

/-- A text is a line iff it is not empty and has no line feed. -/
lemma lineChars_eq_singleton_iff {cs : List Char} : lineChars cs = [cs] ↔ cs ≠ [] ∧ '\n' ∉ cs := by
  constructor
  · intro h
    constructor
    · rintro rfl
      cases h
    · exact lineFeed_notMem_of_mem_lineChars (by rw [h]; exact List.mem_singleton_self cs)
  · rintro ⟨hne, hfeed⟩
    induction cs with
    | nil => exact absurd rfl hne
    | cons c cs ih =>
      obtain ⟨hc, hcs⟩ := not_or.mp (mt List.mem_cons.mpr hfeed)
      have hhead : cs.head? ≠ some '\n' := fun h => hcs (List.mem_of_mem_head? h)
      rw [lineChars_cons (Ne.symm hc) fun _ => hhead]
      cases cs with
      | nil => rfl
      | cons d ds => rw [ih (List.cons_ne_nil d ds) hcs, joinLine]

/-- The lines `js` are `ls` and then `ms`, but the last of the former and the first of the latter are
one. -/
def Joined (ls ms js : List (List Char)) : Prop :=
  ∃ front last first rest, ls = front ++ [last] ∧ ms = first :: rest ∧
    js = front ++ (last ++ first) :: rest

lemma Joined.line_cons {ls ms js : List (List Char)} (h : Joined ls ms js) (line : List Char) :
    Joined (line :: ls) ms (line :: js) := by
  obtain ⟨front, last, first, rest, rfl, rfl, rfl⟩ := h
  exact ⟨line :: front, last, first, rest, rfl, rfl, rfl⟩

lemma Joined.joinLine {ls ms js : List (List Char)} (h : Joined ls ms js) (c : Char) :
    Joined (joinLine c ls) ms (joinLine c js) := by
  obtain ⟨front, last, first, rest, rfl, rfl, rfl⟩ := h
  cases front with
  | nil => exact ⟨[], c :: last, first, rest, rfl, rfl, rfl⟩
  | cons line front => exact ⟨(c :: line) :: front, last, first, rest, rfl, rfl, rfl⟩

/-- What is put behind a text goes on in its last line. -/
theorem joined_lineChars_append {as bs : List Char} (has : as ≠ [])
    (hlast : as.getLast? ≠ some '\n') (hbs : bs ≠ []) (hhead : bs.head? ≠ some '\n') :
    Joined (lineChars as) (lineChars bs) (lineChars (as ++ bs)) := by
  fun_induction lineChars as with
  | case1 => exact absurd rfl has
  | case2 cs ih =>
    cases cs with
    | nil => simp at hlast
    | cons d ds => exact (ih (List.cons_ne_nil d ds) hlast).line_cons []
  | case3 cs ih =>
    cases cs with
    | nil => simp at hlast
    | cons d ds => exact (ih (List.cons_ne_nil d ds) hlast).line_cons []
  | case4 c cs hc hcr ih =>
    cases cs with
    | nil =>
      obtain ⟨first, rest, hb⟩ := List.exists_cons_of_ne_nil (mt lineChars_eq_nil_iff.mp hbs)
      rw [List.singleton_append, lineChars_cons hc fun _ => hhead, hb]
      exact ⟨[], [c], first, rest, rfl, rfl, rfl⟩
    | cons d ds =>
      have hcons : lineChars (c :: (d :: ds ++ bs)) =
          Text.joinLine c (lineChars (d :: ds ++ bs)) := by
        refine lineChars_cons hc fun hr hd => ?_
        exact hcr ds hr (by simpa using hd)
      rw [List.cons_append, hcons]
      exact (ih (List.cons_ne_nil d ds) hlast).joinLine c

theorem lines_eq_singleton_iff {text : String} :
    lines text = [text] ↔ text ≠ "" ∧ '\n' ∉ text.toList := by
  have hchars : lines text = [text] ↔ lineChars text.toList = [text.toList] := by
    rw [lines, ← List.map_inj_right fun _ _ => String.ofList_injective]
    simp
  rw [hchars, lineChars_eq_singleton_iff, Ne, String.toList_eq_nil_iff]

theorem lines_append {a b : String} (ha : a ≠ "") (hlast : a.toList.getLast? ≠ some '\n')
    (hb : b ≠ "") (hhead : b.toList.head? ≠ some '\n') :
    ∃ front last first rest, lines a = front ++ [last] ∧ lines b = first :: rest ∧
      lines (a ++ b) = front ++ (last ++ first) :: rest := by
  obtain ⟨front, last, first, rest, has, hbs, happend⟩ :=
    joined_lineChars_append (mt String.toList_eq_nil_iff.mp ha) hlast
      (mt String.toList_eq_nil_iff.mp hb) hhead
  refine ⟨front.map String.ofList, String.ofList last, String.ofList first,
    rest.map String.ofList, ?_, ?_, ?_⟩
  · simp [lines, has]
  · simp [lines, hbs]
  · simp [lines, String.toList_append, happend, String.ofList_append]

end TvmAssembly.Text
