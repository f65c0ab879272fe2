import TvmAssembly.Proofs.OpcodeLanguage

/-!
# What the log tells of a line

The log of an attempt at a line accounts for the outcome (`Attempt.AccountsFor`) if it tells a
failure in one entry for debugging that quotes the line, and a success in one entry to be traced if
a family gave the signature and in none if a table did. The attempts at throws all keep to that. Of
those at instructions the only ones that do not are tuple operations whose values no word counts
(`Mnemonic.Uncounted`): they fail, and nothing is logged.
-/

namespace TvmAssembly

/-- The line stands in the text of the entry. -/
def LogEntry.Quotes (entry : LogEntry) (line : String) : Prop :=
  line.toList <:+: entry.text.toList

lemma LogEntry.quotes_of_text_eq {entry : LogEntry} {front line back : String}
    (h : entry.text = front ++ line ++ back) : entry.Quotes line := by
  unfold Quotes
  rw [h, String.toList_append, String.toList_append]
  exact List.infix_append front.toList line.toList back.toList

lemma LogEntry.quotes_noOpcodeRule (line : String) : (noOpcodeRule line).Quotes line := by
  have htext : (noOpcodeRule line).text = "no opcode rule for `" ++ line ++ "`" := rfl
  exact quotes_of_text_eq htext

lemma LogEntry.quotes_noThrowRule (line : String) : (noThrowRule line).Quotes line := by
  have htext : (noThrowRule line).text = "no THROW rule for `" ++ line ++ "`" := rfl
  exact quotes_of_text_eq htext

namespace Opcode

def OfFamily (opcode : String) : Prop :=
  ∃ family, Rule.Covers opcode (.family family)

/-- The opcode stands in the table of the fixed signatures or in that of the throws. -/
def InTable (opcode : String) : Prop :=
  ∃ signature, (opcode, signature) ∈ fixedTable ∨ (opcode, signature) ∈ throwTable

lemma lookup?_throwTable_eq_some_iff {opcode : String} {signature : Signature} :
    lookup? opcode throwTable = some signature ↔ (opcode, signature) ∈ throwTable :=
  lookup?_eq_some_iff (by decide)

lemma not_ofFamily_of_inTable {opcode : String} (h : InTable opcode) : ¬OfFamily opcode := by
  rintro ⟨family, hfamily⟩
  obtain ⟨signature, hfixed | hthrow⟩ := h
  · have hrule : Rule.family family = .entry := hfamily.unique ⟨signature, hfixed⟩
    cases hrule
  · exact not_covers_of_lookup?_throwTable (lookup?_throwTable_eq_some_iff.mpr hthrow) _ hfamily

end Opcode

namespace Attempt

/-- The log tells what became of an attempt at the line: of a failure that there was one, of a
success where the signature is from. -/
structure AccountsFor {α : Type} (a : Attempt α) (line : String) : Prop where
  of_error : ∀ fault, a.outcome = .error fault →
    ∃ entry, a.log = [entry] ∧ entry.level = .debug ∧ entry.Quotes line
  of_family : ∀ x, a.outcome = .ok x → Opcode.OfFamily (Mnemonic.parse line).opcode →
    ∃ entry, a.log = [entry] ∧ entry.level = .trace
  of_table : ∀ x, a.outcome = .ok x → Opcode.InTable (Mnemonic.parse line).opcode → a.log = []
  ofFamily_or_inTable : ∀ x, a.outcome = .ok x →
    Opcode.OfFamily (Mnemonic.parse line).opcode ∨ Opcode.InTable (Mnemonic.parse line).opcode

namespace AccountsFor

variable {α β : Type} {line : String} {fault : Fault} {entry : LogEntry}

lemma failed (hlevel : entry.level = .debug) (hquotes : entry.Quotes line) :
    AccountsFor (⟨.error fault, [entry]⟩ : Attempt α) line where
  of_error _ _ := ⟨entry, rfl, hlevel, hquotes⟩
  of_family _ h _ := by cases h
  of_table _ h _ := by cases h
  ofFamily_or_inTable _ h := by cases h

lemma resolvedByFamily {x : α} (hfamily : Opcode.OfFamily (Mnemonic.parse line).opcode)
    (hlevel : entry.level = .trace) : AccountsFor (⟨.ok x, [entry]⟩ : Attempt α) line where
  of_error _ h := by cases h
  of_family _ _ _ := ⟨entry, rfl, hlevel⟩
  of_table _ _ htable := absurd hfamily (Opcode.not_ofFamily_of_inTable htable)
  ofFamily_or_inTable _ _ := .inl hfamily

lemma foundInTable {x : α} (htable : Opcode.InTable (Mnemonic.parse line).opcode) :
    AccountsFor (silent (.ok x)) line where
  of_error _ h := by cases h
  of_family _ _ hfamily := absurd hfamily (Opcode.not_ofFamily_of_inTable htable)
  of_table _ _ _ := rfl
  ofFamily_or_inTable _ _ := .inr htable

lemma not_of_eq_silent_error {a : Attempt α} (ha : a = silent (.error fault)) :
    ¬a.AccountsFor line := by
  intro h
  rw [ha] at h
  obtain ⟨entry, hlog, -⟩ := h.of_error fault rfl
  cases hlog

/-- It does not matter what a success gives. -/
lemma ok_congr {x : α} {y : β} {log : List LogEntry}
    (h : AccountsFor (⟨.ok x, log⟩ : Attempt α) line) :
    AccountsFor (⟨.ok y, log⟩ : Attempt β) line where
  of_error _ hy := by cases hy
  of_family _ _ := h.of_family x rfl
  of_table _ _ := h.of_table x rfl
  ofFamily_or_inTable _ _ := h.ofFamily_or_inTable x rfl

lemma error_congr {log : List LogEntry} (h : AccountsFor (⟨.error fault, log⟩ : Attempt α) line) :
    AccountsFor (⟨.error fault, log⟩ : Attempt β) line where
  of_error _ _ := h.of_error fault rfl
  of_family _ hy := by cases hy
  of_table _ hy := by cases hy
  ofFamily_or_inTable _ hy := by cases hy

/-- What is made of the result is not logged. -/
lemma map_iff {f : α → β} {a : Attempt α} : (a.map f).AccountsFor line ↔ a.AccountsFor line := by
  obtain ⟨outcome, log⟩ := a
  cases outcome with
  | ok x => exact ⟨ok_congr, ok_congr⟩
  | error fault => exact ⟨error_congr, error_congr⟩

end AccountsFor

end Attempt

/-- A tuple operation whose values no word counts. -/
def Mnemonic.Uncounted (m : Mnemonic) : Prop :=
  (m.opcode = "TUPLE" ∨ m.opcode = "UNTUPLE") ∧
    ∀ arg, m.arg = some arg → ∀ n < UInt32.size, ¬Text.IsNumeral arg n

namespace Opcode

variable {m : Mnemonic} {line : String}

/-- The count is looked for before anything is logged. -/
lemma exists_silent_of_uncounted (h : (Mnemonic.parse line).Uncounted) :
    ∃ fault, resolve line = .silent (.error fault) := by
  obtain ⟨hopcode, hcount⟩ := h
  cases harg : (Mnemonic.parse line).arg with
  | none => exact ⟨_, resolveMnemonic_of_count_eq_error hopcode (count_of_arg_eq_none harg)⟩
  | some arg =>
    have hn := hcount arg harg
    exact ⟨_, resolveMnemonic_of_count_eq_error hopcode (count_of_forall_not_isNumeral harg hn)⟩

/-- Nothing but a count fails a line whose opcode has a rule. -/
lemma Resolves.uncounted {fault : Fault} {rule : Rule} (h : Resolves line m (.error fault))
    (hrule : Rule.Covers m.opcode rule) : m.Uncounted := by
  cases h with
  | countMissing hopcode harg =>
    refine ⟨hopcode, ?_⟩
    intro arg hsome
    rw [harg] at hsome
    cases hsome
  | countUnreadable hopcode harg hn =>
    refine ⟨hopcode, ?_⟩
    intro arg hsome
    rw [harg, Option.some_inj] at hsome
    rwa [← hsome]
  | unresolvable hnone => exact absurd hrule (hnone rule)

lemma accountsFor_resolve (h : ¬(Mnemonic.parse line).Uncounted) :
    (resolve line).AccountsFor line := by
  rw [resolve]
  by_cases hall : ∀ rule, ¬Rule.Covers (Mnemonic.parse line).opcode rule
  · rw [resolveMnemonic_of_forall_not_covers hall]
    exact .failed rfl (LogEntry.quotes_noOpcodeRule line)
  · obtain ⟨rule, hrule⟩ := not_forall_not.mp hall
    cases rule with
    | entry =>
      obtain ⟨signature, hrow⟩ := hrule
      rw [resolveMnemonic_of_entry hrow]
      exact .foundInTable ⟨signature, .inl hrow⟩
    | family family =>
      have hresolves := resolves_resolveMnemonic (Mnemonic.parse line) line
      rw [resolveMnemonic_of_family hrule, resolveFamily] at hresolves
      rw [resolveMnemonic_of_family hrule, resolveFamily]
      -- A family logs what it found, and no fault; it has one for want of a count only.
      cases heffect : family.effect (Mnemonic.parse line) line with
      | ok effect => exact .resolvedByFamily ⟨family, hrule⟩ rfl
      | error fault =>
        rw [heffect] at hresolves
        exact absurd (hresolves.uncounted hrule) h

lemma accountsFor_resolve_iff :
    (resolve line).AccountsFor line ↔ ¬(Mnemonic.parse line).Uncounted := by
  refine ⟨?_, accountsFor_resolve⟩
  intro h huncounted
  obtain ⟨fault, hsilent⟩ := exists_silent_of_uncounted huncounted
  exact Attempt.AccountsFor.not_of_eq_silent_error hsilent h

lemma accountsFor_resolveThrow (line : String) : (resolveThrow line).AccountsFor line := by
  rw [resolveThrow, resolveThrowMnemonic]
  cases hrow : lookup? (Mnemonic.parse line).opcode throwTable with
  | some signature => exact .foundInTable ⟨signature, .inr (lookup?_throwTable_eq_some_iff.mp hrow)⟩
  | none => exact .failed rfl (LogEntry.quotes_noThrowRule line)

/-- The log accounts for every attempt at a throw, and for an attempt at an instruction iff the line
is not a tuple operation without a count. Those lines are the ones that fail in silence. -/
theorem log_accounts_iff_counted (line : String) :
    ((Build.instruction line).AccountsFor line ↔ ¬(Mnemonic.parse line).Uncounted) ∧
    ((resolve line).AccountsFor line ↔ ¬(Mnemonic.parse line).Uncounted) ∧
    (Build.throwing line).AccountsFor line ∧
    (resolveThrow line).AccountsFor line ∧
    ((Mnemonic.parse line).Uncounted ↔ ∃ fault, resolve line = .silent (.error fault)) := by
  have hthrow := accountsFor_resolveThrow line
  refine ⟨?_, accountsFor_resolve_iff, ?_, hthrow, ?_⟩
  · rw [Build.instruction, Attempt.AccountsFor.map_iff]
    exact accountsFor_resolve_iff
  · rw [Build.throwing, Attempt.AccountsFor.map_iff]
    exact hthrow
  · constructor
    · exact exists_silent_of_uncounted
    · rintro ⟨fault, hsilent⟩
      by_contra hcounted
      exact Attempt.AccountsFor.not_of_eq_silent_error hsilent (accountsFor_resolve hcounted)

/-- A count that is not a numeral fails the line, and the log does not tell. -/
theorem unreadable_count_not_logged :
    resolve "TUPLE x" = .silent (.error (.countUnreadable "TUPLE" "x")) ∧
      ¬(resolve "TUPLE x").AccountsFor "TUPLE x" := by
  have hresolve : resolve "TUPLE x" = .silent (.error (.countUnreadable "TUPLE" "x")) := rfl
  exact ⟨hresolve, Attempt.AccountsFor.not_of_eq_silent_error hresolve⟩

end Opcode

end TvmAssembly
