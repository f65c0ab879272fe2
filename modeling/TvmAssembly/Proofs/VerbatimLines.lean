import Mathlib.Tactic.Lemma
import TvmAssembly.Build.Leaf
import TvmAssembly.Proofs.ProgramText

/-!
# Verbatim assembly on paper

Verbatim assembly is a list of lines, but the printer takes each of them for a text that may have
several, or none. A line without a line feed comes out as it is if there is something on it; an
empty one is a text without lines and leaves no trace. So what is printed tells the lines apart up
to the empty ones among them, and no further.
-/

namespace TvmAssembly

namespace Text

/-- The lines with something on them. -/
def filled (lines : List String) : List String :=
  lines.filter (· ≠ "")

lemma filled_eq_self_iff {lines : List String} : filled lines = lines ↔ "" ∉ lines := by
  unfold filled
  rw [List.filter_eq_self]
  constructor
  · intro h hempty
    exact absurd rfl (of_decide_eq_true (h "" hempty))
  · intro h line hline
    exact decide_eq_true (ne_of_mem_of_not_mem hline h)

lemma ne_empty_of_mem_filled {lines : List String} {line : String} (h : line ∈ filled lines) :
    line ≠ "" := by
  unfold filled at h
  exact of_decide_eq_true (List.mem_filter.mp h).2

lemma mem_of_mem_filled {lines : List String} {line : String} (h : line ∈ filled lines) :
    line ∈ lines := by
  unfold filled at h
  exact (List.mem_filter.mp h).1

/-- Taken for texts, lines without line feeds have those of themselves that are not empty. -/
lemma flatMap_lines_eq_filled {texts : List String} (h : ∀ text ∈ texts, '\n' ∉ text.toList) :
    texts.flatMap lines = filled texts := by
  induction texts with
  | nil => rfl
  | cons text texts ih =>
    have hrest : texts.flatMap lines = filled texts := by
      apply ih
      intro next hnext
      exact h next (List.mem_cons_of_mem text hnext)
    rw [List.flatMap_cons, hrest]
    by_cases hempty : text = ""
    · rw [hempty]
      rfl
    · have hline : lines text = [text] :=
        lines_eq_singleton_iff.mpr ⟨hempty, h text List.mem_cons_self⟩
      have hkept : filled (text :: texts) = text :: filled texts :=
        List.filter_cons_of_pos (decide_eq_true hempty)
      rw [hline, hkept]
      rfl

lemma unlines_eq_empty_iff {lines : List String} : unlines lines = "" ↔ lines = [] := by
  cases lines with
  | nil => exact ⟨fun _ => rfl, fun _ => rfl⟩
  | cons line lines =>
    rw [unlines_cons]
    simp

/-- Up to its line feed, a line can be told from what follows. -/
lemma append_lineFeed_inj {as bs r s : List Char} (ha : '\n' ∉ as) (hb : '\n' ∉ bs)
    (h : as ++ '\n' :: r = bs ++ '\n' :: s) : as = bs ∧ r = s := by
  induction as generalizing bs with
  | nil =>
    cases bs with
    | nil => exact ⟨rfl, (List.cons.inj h).2⟩
    | cons b bs => exact absurd (List.mem_cons.mpr (.inl (List.cons.inj h).1)) hb
  | cons a as ih =>
    cases bs with
    | nil => exact absurd (List.mem_cons.mpr (.inl (List.cons.inj h).1.symm)) ha
    | cons b bs =>
      obtain ⟨rfl, hrest⟩ := List.cons.inj h
      obtain ⟨rfl, rfl⟩ := ih (mt (List.mem_cons_of_mem a) ha) (mt (List.mem_cons_of_mem a) hb) hrest
      exact ⟨rfl, rfl⟩

/-- From lines behind a common indent, each of them can be read off. The indent may have line feeds
itself. -/
lemma unlines_map_append_inj {indent : String} {as bs : List String}
    (ha : ∀ a ∈ as, '\n' ∉ a.toList) (hb : ∀ b ∈ bs, '\n' ∉ b.toList)
    (h : unlines (as.map (indent ++ ·)) = unlines (bs.map (indent ++ ·))) : as = bs := by
  induction as generalizing bs with
  | nil =>
    have hnil : bs.map (indent ++ ·) = [] := unlines_eq_empty_iff.mp h.symm
    exact (List.map_eq_nil_iff.mp hnil).symm
  | cons a as ih =>
    cases bs with
    | nil =>
      have hnil : (a :: as).map (indent ++ ·) = [] := unlines_eq_empty_iff.mp h
      exact List.map_eq_nil_iff.mp hnil
    | cons b bs =>
      obtain ⟨ha', has⟩ := List.forall_mem_cons.mp ha
      obtain ⟨hb', hbs⟩ := List.forall_mem_cons.mp hb
      have hbehind : a.toList ++ '\n' :: (unlines (as.map (indent ++ ·))).toList =
          b.toList ++ '\n' :: (unlines (bs.map (indent ++ ·))).toList := by
        rw [List.map_cons, List.map_cons, unlines_cons, unlines_cons] at h
        simpa [String.toList_append] using congrArg String.toList h
      obtain ⟨hline, hrest⟩ := append_lineFeed_inj ha' hb' hbehind
      rw [String.toList_inj.mp hline, ih has hbs (String.toList_inj.mp hrest)]

lemma intercalate_eq_empty_iff {lines : List String} :
    "\n".intercalate lines = "" ↔ lines = [] ∨ lines = [""] := by
  match lines with
  | [] => simp
  | [only] =>
    rw [String.intercalate_singleton]
    simp
  | first :: second :: rest =>
    rw [String.intercalate_cons_cons]
    simp

lemma intercalate_ne_empty {lines : List String} {line : String} (hmem : line ∈ lines)
    (hline : line ≠ "") : "\n".intercalate lines ≠ "" := by
  rw [Ne, intercalate_eq_empty_iff]
  rintro (rfl | rfl)
  · exact List.not_mem_nil hmem
  · exact hline (List.mem_singleton.mp hmem)

end Text

namespace Printer

variable (p : Printer)

/-- What stands before the lines at the present depth. -/
def margin : String :=
  String.join (List.replicate p.depth p.style.indent)

lemma indented_eq_append {line : String} (h : line ≠ "") : p.indented line = p.margin ++ line :=
  if_neg h

lemma finish_eq_ite : p.finish = if "\n".intercalate p.lines.toList = "" then ""
    else "\n".intercalate p.lines.toList ++ "\n" :=
  rfl

lemma finish_eq_empty_or_unlines : p.finish = "" ∨ p.finish = Text.unlines p.lines.toList := by
  rw [finish_eq_ite]
  by_cases hempty : "\n".intercalate p.lines.toList = ""
  · exact .inl (if_pos hempty)
  · apply Or.inr
    rw [if_neg hempty]
    cases hlines : p.lines.toList with
    | nil =>
      rw [hlines] at hempty
      exact absurd String.intercalate_nil hempty
    | cons line lines => exact Text.intercalate_append_lineFeed line lines

lemma finish_eq_unlines_of_mem {line : String} (hmem : line ∈ p.lines.toList)
    (hline : line ≠ "") : p.finish = Text.unlines p.lines.toList := by
  have hprinted : p.finish ≠ "" := by
    rw [finish_eq_ite, if_neg (Text.intercalate_ne_empty hmem hline)]
    simp
  exact p.finish_eq_empty_or_unlines.resolve_left hprinted

/-- The text of a printer that has written filled lines: that of the lines before them, and theirs,
each behind the margin. -/
lemma finish_write {lines : List String} (hsome : lines ≠ []) (hfilled : ∀ line ∈ lines, line ≠ "") :
    (p.write lines).finish =
      Text.unlines p.lines.toList ++ Text.unlines (lines.map (p.margin ++ ·)) := by
  have hindented : lines.map p.indented = lines.map (p.margin ++ ·) := by
    apply List.map_congr_left
    intro line hline
    exact p.indented_eq_append (hfilled line hline)
  have hlines : (p.write lines).lines.toList = p.lines.toList ++ lines.map p.indented :=
    Array.toList_appendList
  obtain ⟨line, hmem⟩ := List.exists_mem_of_ne_nil lines hsome
  have hwritten : p.indented line ∈ (p.write lines).lines.toList := by
    rw [hlines]
    exact List.mem_append_right _ (List.mem_map_of_mem hmem)
  have hline : p.indented line ≠ "" := by
    rw [p.indented_eq_append (hfilled line hmem)]
    simp [hfilled line hmem]
  rw [finish_eq_unlines_of_mem _ hwritten hline, hlines, Text.unlines_append, hindented]

/-- Filled lines are seen in the text. -/
lemma finish_ne_finish_write {lines : List String} (hsome : lines ≠ [])
    (hfilled : ∀ line ∈ lines, line ≠ "") : p.finish ≠ (p.write lines).finish := by
  intro h
  rw [p.finish_write hsome hfilled] at h
  have hnone : Text.unlines (lines.map (p.margin ++ ·)) = "" := by
    rcases p.finish_eq_empty_or_unlines with hempty | hwhole
    · rw [hempty] at h
      exact (String.append_eq_empty_iff.mp h.symm).2
    · rw [hwhole] at h
      apply (String.append_right_inj (Text.unlines p.lines.toList)).mp
      rw [← h, String.append_empty]
  exact hsome (List.map_eq_nil_iff.mp (Text.unlines_eq_empty_iff.mp hnone))

/-- Which filled lines were written can be read off the text. -/
lemma finish_write_inj {as bs : List String} (ha : ∀ a ∈ as, a ≠ "" ∧ '\n' ∉ a.toList)
    (hb : ∀ b ∈ bs, b ≠ "" ∧ '\n' ∉ b.toList) :
    (p.write as).finish = (p.write bs).finish ↔ as = bs := by
  constructor
  · intro h
    by_cases has : as = []
    · by_cases hbs : bs = []
      · rw [has, hbs]
      · rw [has, write_nil] at h
        exact absurd h (p.finish_ne_finish_write hbs fun b hmem => (hb b hmem).1)
    · by_cases hbs : bs = []
      · rw [hbs, write_nil] at h
        exact absurd h.symm (p.finish_ne_finish_write has fun a hmem => (ha a hmem).1)
      · rw [p.finish_write has fun a hmem => (ha a hmem).1,
          p.finish_write hbs fun b hmem => (hb b hmem).1] at h
        exact Text.unlines_map_append_inj (fun a hmem => (ha a hmem).2)
          (fun b hmem => (hb b hmem).2) ((String.append_right_inj _).mp h)
  · rintro rfl
    rfl

end Printer

namespace Verbatim

/-- Verbatim assembly that the factory gives for lines without line feeds. -/
structure BuiltFrom (v : Verbatim) (lines : List String) : Prop where
  built : ∃ signature, Build.verbatim lines signature = .ok v
  whole : ∀ line ∈ lines, '\n' ∉ line.toList

namespace BuiltFrom

variable {v w : Verbatim} {lines lines' : List String}

lemma lines_eq (h : v.BuiltFrom lines) : v.lines = lines := by
  obtain ⟨signature, hbuilt⟩ := h.built
  unfold Build.verbatim at hbuilt
  split at hbuilt
  · cases hbuilt
  · rw [← Except.ok.inj hbuilt]

lemma visitor_eq_write (h : v.BuiltFrom lines) (p : Printer) :
    Printer.visitor.node (.leaf (.verbatim v)) p = p.write (Text.filled lines) := by
  have hleaf : Printer.visitor.node (.leaf (.verbatim v)) p =
      p.write (v.lines.flatMap Text.lines) := p.leaf_eq_write (.verbatim v)
  rw [hleaf, h.lines_eq, Text.flatMap_lines_eq_filled h.whole]

lemma filled_isLine (h : v.BuiltFrom lines) :
    ∀ line ∈ Text.filled lines, line ≠ "" ∧ '\n' ∉ line.toList := by
  intro line hline
  exact ⟨Text.ne_empty_of_mem_filled hline, h.whole line (Text.mem_of_mem_filled hline)⟩

/-- Wherever it is printed, verbatim assembly adds those of its lines that are not empty, in order and
at the present depth. These are all of its lines exactly if no line is empty, and two pieces of
verbatim assembly give the same text exactly if they differ in nothing but empty lines. -/
theorem printed_iff (hv : v.BuiltFrom lines) (hw : w.BuiltFrom lines') (p : Printer) :
    Printer.visitor.node (.leaf (.verbatim v)) p = p.write (Text.filled lines) ∧
    (Printer.visitor.node (.leaf (.verbatim v)) p = p.write lines ↔ "" ∉ lines) ∧
    ((Printer.visitor.node (.leaf (.verbatim v)) p).finish =
        (Printer.visitor.node (.leaf (.verbatim w)) p).finish ↔
      Text.filled lines = Text.filled lines') := by
  rw [hv.visitor_eq_write, hw.visitor_eq_write]
  refine ⟨rfl, ?_, p.finish_write_inj hv.filled_isLine hw.filled_isLine⟩
  rw [p.write_injective.eq_iff, Text.filled_eq_self_iff]

theorem printed_iff_indented :
    (Verbatim.mk ["NOP", "DROP\r"] ⟨.none, false⟩).BuiltFrom ["NOP", "DROP\r"] ∧
    (Verbatim.mk ["NOP DROP"] ⟨.none, true⟩).BuiltFrom ["NOP DROP"] ∧
    Printer.visitor.node (.leaf (.verbatim ⟨["NOP", "DROP\r"], ⟨.none, false⟩⟩))
        (Printer.start Style.standard).deeper =
      (Printer.start Style.standard).deeper.write ["NOP", "DROP\r"] ∧
    (Printer.visitor.node (.leaf (.verbatim ⟨["NOP", "DROP\r"], ⟨.none, false⟩⟩))
        (Printer.start Style.standard).deeper).finish ≠
      (Printer.visitor.node (.leaf (.verbatim ⟨["NOP DROP"], ⟨.none, true⟩⟩))
        (Printer.start Style.standard).deeper).finish := by
  have hv : (Verbatim.mk ["NOP", "DROP\r"] ⟨.none, false⟩).BuiltFrom ["NOP", "DROP\r"] :=
    ⟨⟨_, rfl⟩, by decide⟩
  have hw : (Verbatim.mk ["NOP DROP"] ⟨.none, true⟩).BuiltFrom ["NOP DROP"] :=
    ⟨⟨_, rfl⟩, by decide⟩
  obtain ⟨-, hwhole, htext⟩ := printed_iff hv hw (Printer.start Style.standard).deeper
  exact ⟨hv, hw, hwhole.mpr (by decide), mt htext.mp (by decide)⟩

/-- An empty line between two others is dropped: the text is that of the two alone. -/
theorem emptyLine_dropped :
    (Node.leaf (.verbatim ⟨["NOP", "", "NOP"], ⟨.none, false⟩⟩)).print Style.standard =
      "NOP\nNOP\n" ∧
    (Node.leaf (.verbatim ⟨["NOP", "NOP"], ⟨.none, false⟩⟩)).print Style.standard =
      "NOP\nNOP\n" ∧
    ¬ ∀ v lines, BuiltFrom v lines → ∀ p : Printer,
      Printer.visitor.node (.leaf (.verbatim v)) p = p.write lines := by
  refine ⟨by decide +kernel, by decide +kernel, fun h => ?_⟩
  have hbuilt : (Verbatim.mk ["NOP", "", "NOP"] ⟨.none, false⟩).BuiltFrom ["NOP", "", "NOP"] :=
    ⟨⟨_, rfl⟩, by decide⟩
  have hlines := (Printer.start Style.standard).write_injective
    ((hbuilt.visitor_eq_write _).symm.trans (h _ _ hbuilt (Printer.start Style.standard)))
  exact absurd hlines (by decide)

end BuiltFrom

end Verbatim

end TvmAssembly
