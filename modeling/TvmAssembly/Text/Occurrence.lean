/-!
# Texts inside texts

Where one text stands inside another: at its start, or anywhere. In the latter case the leftmost
place counts, and an empty text stands at the start of every other.
-/

namespace TvmAssembly.Text

/-- What is left of a text that starts with `front`. -/
def behind? : (front text : List Char) → Option (List Char)
  | [], cs => some cs
  | _ :: _, [] => none
  | f :: fs, c :: cs => if f = c then behind? fs cs else none

/-- What a text has before the leftmost place of `part`. -/
def before? (part : List Char) : List Char → Option (List Char)
  | [] => if part = [] then some [] else none
  | c :: cs => if (behind? part (c :: cs)).isSome then some [] else (before? part cs).map (c :: ·)

theorem behind?_eq_some_iff {front text rest : List Char} :
    behind? front text = some rest ↔ text = front ++ rest := by
  fun_induction behind? front text with
  | case1 cs => simp [eq_comm]
  | case2 f fs => simp
  | case3 f fs cs ih => simp [ih]
  | case4 f fs c cs h => simp [Ne.symm h]

end TvmAssembly.Text
