import TvmAssembly.Proofs.JoinedLines
import TvmAssembly.Proofs.Layout

/-!
# Texts of programs

One printer prints all functions of a program, but it comes back to the left margin after each of
them, and what it remembers of those before is only whether there were any. So the text of a program
is put together from texts that do not know of each other: that of the pragmas, and those of the
functions, with empty lines between them.
-/

namespace TvmAssembly

/-! ## Lines as a text -/

namespace Text

/-- Lines as a text, each with a line feed at its end. -/
def unlines (lines : List String) : String :=
  String.join (lines.map (· ++ "\n"))

lemma unlines_append (as bs : List String) : unlines (as ++ bs) = unlines as ++ unlines bs := by
  rw [unlines, List.map_append, String.join_append]
  rfl

lemma unlines_cons (line : String) (lines : List String) :
    unlines (line :: lines) = line ++ "\n" ++ unlines lines := by
  rw [unlines, List.map_cons, String.join_cons]
  rfl

lemma unlines_flatMap {α : Type} (lines : α → List String) (as : List α) :
    unlines (as.flatMap lines) = String.join (as.map fun a => unlines (lines a)) := by
  induction as with
  | nil => rfl
  | cons a as ih => rw [List.flatMap_cons, unlines_append, ih, List.map_cons, String.join_cons]

lemma intercalate_cons (separator text : String) (texts : List String) :
    separator.intercalate (text :: texts) = text ++ String.join (texts.map (separator ++ ·)) := by
  induction texts generalizing text with
  | nil => rw [String.intercalate_singleton, List.map_nil, String.join_nil, String.append_empty]
  | cons next texts ih =>
    rw [String.intercalate_cons_cons, ih, List.map_cons, String.join_cons, String.append_assoc,
      String.append_assoc]

/-- A text that starts with a character on a line has a first line that is not empty. -/
lemma exists_lines_eq_cons {text : String} {c : Char} {cs : List Char}
    (htext : text.toList = c :: cs) (hfeed : c ≠ '\n') (hreturn : c ≠ '\r') :
    ∃ line rest, lines text = line :: rest ∧ line ≠ "" := by
  have hchars : lineChars (c :: cs) = joinLine c (lineChars cs) :=
    lineChars_cons hfeed fun h => absurd h hreturn
  rw [lines, htext, hchars]
  cases lineChars cs with
  | nil => exact ⟨_, [], rfl, by simp⟩
  | cons first rest => exact ⟨_, rest.map String.ofList, rfl, by simp⟩

end Text

lemma Printer.finish_eq_unlines {p : Printer} (hhead : p.lines.toList.head? ≠ some "") :
    p.finish = Text.unlines p.lines.toList := by
  cases hlines : p.lines.toList with
  | nil =>
    have hempty : p.finish = if "\n".intercalate p.lines.toList = "" then ""
        else "\n".intercalate p.lines.toList ++ "\n" := rfl
    rw [hempty, hlines, String.intercalate_nil, if_pos rfl]
    rfl
  | cons line rest =>
    have hline : line ≠ "" := by
      intro h
      rw [hlines, h] at hhead
      exact hhead rfl
    rw [Printer.finish_eq_join hlines hline, hlines]
    rfl

/-! ## Lines of functions and pragmas -/

/-- The lines of a function: its head, and its code one level deeper. -/
def Layout.function (L : Layout) (f : Function) : List String :=
  Text.lines (f.kind.directive ++ " " ++ f.name) ++ (L.inside f.block).map L.shift

lemma Layout.head?_function_ne_empty (L : Layout) (f : Function) (lines : List String) :
    (L.function f ++ lines).head? ≠ some "" := by
  obtain ⟨cs, hcs⟩ : ∃ cs, f.kind.directive.toList = '.' :: cs := by
    cases f.kind <;> exact ⟨_, rfl⟩
  have htext : (f.kind.directive ++ " " ++ f.name).toList =
      '.' :: (cs ++ " ".toList ++ f.name.toList) := by
    rw [String.toList_append, String.toList_append, hcs]
    rfl
  obtain ⟨line, rest, hlines, hline⟩ := Text.exists_lines_eq_cons htext (by decide) (by decide)
  rw [Layout.function, hlines]
  simpa using hline

def pragmaLines (pragmas : List String) : List String :=
  pragmas.flatMap fun pragma => Text.lines (".pragma " ++ pragma)

lemma head?_pragmaLines_cons_ne_empty (pragma : String) (pragmas lines : List String) :
    (pragmaLines (pragma :: pragmas) ++ lines).head? ≠ some "" := by
  have hcs : (".pragma " ++ pragma).toList = '.' :: ("pragma ".toList ++ pragma.toList) := by
    rw [String.toList_append]
    rfl
  obtain ⟨line, rest, hlines, hline⟩ := Text.exists_lines_eq_cons hcs (by decide) (by decide)
  rw [pragmaLines, List.flatMap_cons, hlines]
  simpa using hline

/-- The lines of functions, with an empty line between one and the next. -/
def Layout.functions (L : Layout) : List Function → List String
  | [] => []
  | f :: fs => L.function f ++ fs.flatMap fun f => "" :: L.function f

/-- The lines of a program: its pragmas and its functions, apart from each other. -/
def Layout.program (L : Layout) (p : Program) : List String :=
  pragmaLines p.pragmas ++ ((if p.pragmas = [] ∨ p.functions = [] then [] else [""]) ++
    L.functions p.functions)

lemma Layout.head?_program_ne_empty (L : Layout) (p : Program) :
    (L.program p).head? ≠ some "" := by
  obtain ⟨pragmas, functions⟩ := p
  cases pragmas with
  | cons pragma pragmas => exact head?_pragmaLines_cons_ne_empty pragma pragmas _
  | nil =>
    cases functions with
    | nil => simp [Layout.program, pragmaLines, Layout.functions]
    | cons f fs => exact L.head?_function_ne_empty f _

lemma Layout.unlines_functions (L : Layout) (fs : List Function) :
    Text.unlines (L.functions fs) =
      "\n".intercalate (fs.map fun f => Text.unlines (L.function f)) := by
  cases fs with
  | nil =>
    rw [List.map_nil, String.intercalate_nil]
    rfl
  | cons f fs =>
    have hbehind (g : Function) :
        Text.unlines ("" :: L.function g) = "\n" ++ Text.unlines (L.function g) := by
      rw [Text.unlines_cons, String.empty_append]
    rw [Layout.functions, Text.unlines_append, Text.unlines_flatMap, List.map_cons,
      Text.intercalate_cons, List.map_map]
    simp only [hbehind, Function.comp_def]

namespace Printer

variable (p : Printer)

/-- Where a function starts: an empty line below the one before it, if there is one. -/
def beginFunction : Printer :=
  { (if p.functions = 0 then p else p.skipLine) with functions := p.functions + 1 }

@[simp]
lemma style_beginFunction : p.beginFunction.style = p.style := by
  unfold beginFunction
  split <;> rfl

@[simp]
lemma depth_beginFunction : p.beginFunction.depth = p.depth := by
  unfold beginFunction
  split <;> rfl

/-- A function is written at the depth where the printer stands, and leaves it there. -/
lemma print_function_eq_write (f : Function) :
    p.print f.pieces = p.beginFunction.write (p.style.layout.function f) := by
  have hhead : p.functionHead f =
      (p.beginFunction.write (Text.lines (f.kind.directive ++ " " ++ f.name))).deeper := rfl
  have hlayout : (p.beginFunction.write
      (Text.lines (f.kind.directive ++ " " ++ f.name))).style.layout = p.style.layout :=
    congrArg Style.layout p.style_beginFunction
  rw [print_function, style_functionHead, hhead, shallower_write_deeper, write_write, hlayout]
  rfl

lemma style_print_function (f : Function) : (p.print f.pieces).style = p.style := by
  rw [print_function_eq_write]
  exact p.style_beginFunction

lemma depth_print_function (f : Function) : (p.print f.pieces).depth = p.depth := by
  rw [print_function_eq_write]
  exact p.depth_beginFunction

lemma functions_print_function (f : Function) :
    (p.print f.pieces).functions = p.functions + 1 := by
  rw [print_function_eq_write]
  rfl

lemma print_pragmas (pragmas : List String) :
    p.print (pragmas.map fun pragma => .text (".pragma " ++ pragma)) =
      p.write (pragmaLines pragmas) := by
  induction pragmas generalizing p with
  | nil => exact p.write_nil.symm
  | cons pragma pragmas ih =>
    exact print_append_eq_write (p.print_text (".pragma " ++ pragma)) (ih _)

variable {p}

/-- At the left margin a function is added with its own lines, below an empty line if there is a
function before it. -/
lemma toList_lines_print_function (hdepth : p.depth = 0) (f : Function) :
    (p.print f.pieces).lines.toList =
      p.lines.toList ++ (if p.functions = 0 then [] else [""]) ++ p.style.layout.function f := by
  have hbegin : p.beginFunction.lines.toList =
      p.lines.toList ++ if p.functions = 0 then [] else [""] := by
    unfold beginFunction
    by_cases hcount : p.functions = 0
    · rw [if_pos hcount, if_pos hcount, List.append_nil]
    · rw [if_neg hcount, if_neg hcount]
      exact Array.toList_push
  rw [print_function_eq_write, toList_lines_write (by rw [depth_beginFunction, hdepth]), hbegin]

/-- Functions behind another one stand below an empty line each. -/
lemma toList_lines_print_functions (hdepth : p.depth = 0) (hcount : p.functions ≠ 0)
    (fs : List Function) :
    (p.print (fs.flatMap Function.pieces)).lines.toList =
      p.lines.toList ++ fs.flatMap fun f => "" :: p.style.layout.function f := by
  induction fs generalizing p with
  | nil => exact (List.append_nil _).symm
  | cons f fs ih =>
    have hmargin := (p.depth_print_function f).trans hdepth
    have hnext : (p.print f.pieces).functions ≠ 0 := by
      rw [functions_print_function]
      exact Nat.succ_ne_zero p.functions
    rw [List.flatMap_cons, print_append, ih hmargin hnext, style_print_function,
      toList_lines_print_function hdepth, if_neg hcount, List.flatMap_cons]
    simp only [List.append_assoc, List.cons_append, List.nil_append]

/-- Before the functions a program's printer has counted none, and stands at the left margin. -/
lemma print_headPieces (style : Style) (program : Program) :
    (start style).print program.headPieces =
      if program.pragmas = [] ∨ program.functions = [] then
        (start style).write (pragmaLines program.pragmas)
      else ((start style).write (pragmaLines program.pragmas)).skipLine := by
  rw [Program.headPieces, print_append, print_pragmas]
  by_cases hgap : program.pragmas = [] ∨ program.functions = []
  · have htest : (program.pragmas.isEmpty || program.functions.isEmpty) = true := by
      simpa using hgap
    rw [if_pos htest, if_pos hgap]
    rfl
  · have htest : ¬(program.pragmas.isEmpty || program.functions.isEmpty) = true := by
      simpa using hgap
    rw [if_neg htest, if_neg hgap]
    rfl

lemma toList_lines_print_program (style : Style) (program : Program) :
    ((start style).print program.pieces).lines.toList = style.layout.program program := by
  have hstart := toList_lines_write_start style (pragmaLines program.pragmas)
  rw [Program.pieces, print_append, Layout.program, ← List.append_assoc]
  have hhead : ((start style).print program.headPieces).lines.toList =
      pragmaLines program.pragmas ++
        if program.pragmas = [] ∨ program.functions = [] then [] else [""] := by
    rw [print_headPieces]
    split
    · rw [hstart, List.append_nil]
    · rw [skipLine, Array.toList_push, hstart]
  have hfresh : ((start style).print program.headPieces).style = style ∧
      ((start style).print program.headPieces).depth = 0 ∧
      ((start style).print program.headPieces).functions = 0 := by
    rw [print_headPieces]
    split <;> exact ⟨rfl, rfl, rfl⟩
  rw [← hhead]
  -- All that matters of what was printed so far is that no function was.
  generalize (start style).print program.headPieces = q at hfresh ⊢
  obtain ⟨rfl, hdepth, hcount⟩ := hfresh
  cases program.functions with
  | nil => exact (List.append_nil _).symm
  | cons f fs =>
    have hmargin := (q.depth_print_function f).trans hdepth
    have hnext : (q.print f.pieces).functions ≠ 0 := by
      rw [functions_print_function]
      exact Nat.succ_ne_zero q.functions
    rw [List.flatMap_cons, print_append, toList_lines_print_functions hmargin hnext,
      toList_lines_print_function hdepth, if_pos hcount, style_print_function, List.append_nil,
      List.append_assoc, Layout.functions]

end Printer

/-! ## Texts -/

lemma Function.print_eq_unlines (style : Style) (f : Function) :
    f.print style = Text.unlines (style.layout.function f) := by
  have hlines : ((Printer.start style).print f.pieces).lines.toList = style.layout.function f :=
    Printer.toList_lines_print_function rfl f
  have hhead := style.layout.head?_function_ne_empty f []
  rw [List.append_nil] at hhead
  rw [Function.print, Printer.finish_eq_unlines (by rw [hlines]; exact hhead), hlines]

lemma Program.print_eq_unlines (style : Style) (p : Program) :
    p.print style = Text.unlines (style.layout.program p) := by
  have hlines := Printer.toList_lines_print_program style p
  have hhead := style.layout.head?_program_ne_empty p
  rw [Program.print, Printer.finish_eq_unlines (by rw [hlines]; exact hhead), hlines]

/-- The text of a program is that of its pragmas, an empty line if functions follow, and the texts
of the functions, with empty lines between them. What a function is printed as does not depend on
those around it. -/
theorem Program.print_eq_append_functions (style : Style) (pragmas : List String)
    (fs : List Function) :
    (Program.mk pragmas fs).print style =
      (Program.mk pragmas []).print style ++ (if pragmas ≠ [] ∧ fs ≠ [] then "\n" else "") ++
        "\n".intercalate (fs.map fun f => f.print style) := by
  have hgap : Text.unlines (if pragmas = [] ∨ fs = [] then [] else [""]) =
      if pragmas ≠ [] ∧ fs ≠ [] then "\n" else "" := by
    by_cases h : pragmas = [] ∨ fs = []
    · have hnot : ¬(pragmas ≠ [] ∧ fs ≠ []) := fun hboth => h.elim hboth.1 hboth.2
      rw [if_pos h, if_neg hnot]
      rfl
    · have hboth : pragmas ≠ [] ∧ fs ≠ [] := not_or.mp h
      rw [if_neg h, if_pos hboth]
      rfl
  have hpragmas : (Program.mk pragmas []).print style = Text.unlines (pragmaLines pragmas) := by
    rw [Program.print_eq_unlines, Layout.program, if_pos (.inr rfl), Layout.functions,
      List.append_nil, List.append_nil]
  have hfunctions : (fun f : Function => f.print style) =
      fun f => Text.unlines (style.layout.function f) :=
    funext fun f => f.print_eq_unlines style
  rw [Program.print_eq_unlines, Layout.program, Text.unlines_append, Text.unlines_append,
    Layout.unlines_functions, hgap, hpragmas, hfunctions, String.append_assoc]

end TvmAssembly
