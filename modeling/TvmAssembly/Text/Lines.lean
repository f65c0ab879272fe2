/-!
# Lines of a text

A line ends at a line feed, together with a carriage return directly before it. What follows the
last line feed is a line only if there is something there, so a final line feed opens no line and
the empty text has none. A carriage return anywhere else is a character like others.
-/

namespace TvmAssembly.Text

/-- A character joins the line it stands on: the first of those read behind it. -/
def joinLine (c : Char) : List (List Char) → List (List Char)
  | [] => [[c]]
  | line :: rest => (c :: line) :: rest

def lineChars : List Char → List (List Char)
  | [] => []
  | '\n' :: cs => [] :: lineChars cs
  | '\r' :: '\n' :: cs => [] :: lineChars cs
  | c :: cs => joinLine c (lineChars cs)

def lines (text : String) : List String :=
  (lineChars text.toList).map String.ofList

/-- Nothing in a line can be mistaken for the end of one. -/
theorem lineFeed_notMem_of_mem_lineChars {cs line : List Char} (h : line ∈ lineChars cs) :
    '\n' ∉ line := by
  fun_induction lineChars cs generalizing line with
  | case1 => simp at h
  | case2 cs ih =>
    rcases List.mem_cons.1 h with rfl | h
    · simp
    · exact ih h
  | case3 cs ih =>
    rcases List.mem_cons.1 h with rfl | h
    · simp
    · exact ih h
  | case4 c cs hc _ ih =>
    have hne : '\n' ≠ c := fun e => hc e.symm
    cases hl : lineChars cs with
    | nil =>
      rw [hl] at h
      simp only [joinLine, List.mem_singleton] at h
      simp [h, hne]
    | cons first rest =>
      rw [hl] at h ih
      rcases List.mem_cons.1 h with rfl | h
      · simp [hne, ih List.mem_cons_self]
      · exact ih (List.mem_cons_of_mem _ h)

end TvmAssembly.Text
