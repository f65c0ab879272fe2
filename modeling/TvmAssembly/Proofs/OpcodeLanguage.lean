import Mathlib.Data.List.Nodup
import TvmAssembly.Proofs.LineRoundTrip

/-!
# The language of opcodes

Which opcodes have a signature, and which one. An opcode stands in the fixed table, or it is spelled
as one of the families has it; a tuple operation needs a numeral for its argument. No opcode is in
two of these cases, so that it does not matter in which order they are tried
(`Opcode.Rule.Covers.unique`), and what resolution gives for a line is what the case says
(`Opcode.Resolves`).
-/

namespace TvmAssembly

/-! ## Numerals -/

namespace Text

/-- The text is a numeral of the number: decimal digits, one or more, behind a plus sign or without
one. -/
def IsNumeral (text : String) (n : ℕ) : Prop :=
  ∃ sign digits : List Char, text.toList = sign ++ digits ∧ (sign = [] ∨ sign = ['+']) ∧
    digits ≠ [] ∧ (∀ c ∈ digits, c.isDigit = true) ∧ Nat.ofDigitChars 10 digits 0 = n

lemma digitValue?_of_isDigit {c : Char} (h : c.isDigit = true) :
    digitValue? c = some (c.toNat - '0'.toNat) := by
  have hrange : '0' ≤ c ∧ c ≤ '9' := by simpa [Char.isDigit, Char.le_def] using h
  rw [digitValue?, if_pos hrange]

lemma digitValue?_of_not_isDigit {c : Char} (h : ¬c.isDigit = true) : digitValue? c = none := by
  have hrange : ¬('0' ≤ c ∧ c ≤ '9') := by simpa [Char.isDigit, Char.le_def] using h
  rw [digitValue?, if_neg hrange]

lemma digitsFrom?_eq_some_iff {high n : ℕ} {cs : List Char} :
    digitsFrom? high cs = some n ↔
      (∀ c ∈ cs, c.isDigit = true) ∧ Nat.ofDigitChars 10 cs high = n := by
  induction cs generalizing high with
  | nil => simp [digitsFrom?]
  | cons c cs ih =>
    unfold digitsFrom?
    by_cases hc : c.isDigit = true
    · rw [digitValue?_of_isDigit hc, Option.bind_some, ih, List.forall_mem_cons,
        Nat.ofDigitChars_cons]
      simp [hc]
    · rw [digitValue?_of_not_isDigit hc, List.forall_mem_cons]
      simp [hc]

lemma natural?_of_digits {cs : List Char} (hne : unsigned cs ≠ []) :
    natural? cs = digitsFrom? 0 (unsigned cs) := by
  unfold natural?
  split
  · next h => exact absurd h hne
  · rfl

lemma unsigned_append {sign digits : List Char} (hsign : sign = [] ∨ sign = ['+'])
    (hdigits : ∀ c ∈ digits, c.isDigit = true) : unsigned (sign ++ digits) = digits := by
  rcases hsign with rfl | rfl
  · cases digits with
    | nil => rfl
    | cons c cs =>
      have hc : c ≠ '+' := by
        rintro rfl
        exact absurd (hdigits '+' List.mem_cons_self) (by decide)
      rw [List.nil_append]
      unfold unsigned
      split
      · next h => exact absurd (List.cons.inj h).1 hc
      · rfl
  · rfl

lemma exists_sign (cs : List Char) :
    ∃ sign, cs = sign ++ unsigned cs ∧ (sign = [] ∨ sign = ['+']) := by
  unfold unsigned
  split
  · exact ⟨['+'], rfl, .inr rfl⟩
  · exact ⟨[], rfl, .inl rfl⟩

/-- The words that are read are those that a numeral is for. -/
theorem word?_eq_some_iff {text : String} {n : UInt32} :
    word? text = some n ↔ IsNumeral text n.toNat := by
  have hword : word? text = some n ↔ natural? text.toList = some n.toNat := by
    unfold word?
    rw [Option.bind_eq_some_iff]
    constructor
    · rintro ⟨k, hk, hn⟩
      by_cases hlt : k < UInt32.size
      · rw [if_pos hlt, Option.some_inj] at hn
        rw [hk, ← hn, UInt32.toNat_ofNat_of_lt' hlt]
      · rw [if_neg hlt] at hn
        cases hn
    · intro h
      refine ⟨n.toNat, h, ?_⟩
      rw [if_pos n.toNat_lt, UInt32.ofNat_toNat]
  rw [hword]
  constructor
  · intro h
    obtain ⟨sign, htext, hsign⟩ := exists_sign text.toList
    have hne : unsigned text.toList ≠ [] := by
      intro hnil
      rw [natural?, hnil] at h
      cases h
    rw [natural?_of_digits hne, digitsFrom?_eq_some_iff] at h
    exact ⟨sign, _, htext, hsign, hne, h⟩
  · rintro ⟨sign, digits, htext, hsign, hne, hdigits⟩
    have hunsigned := unsigned_append hsign hdigits.1
    rw [htext, natural?_of_digits (by rwa [hunsigned]), hunsigned, digitsFrom?_eq_some_iff]
    exact hdigits

end Text

namespace Opcode

/-! ## Spellings -/

/-- What stands for the type of the keys: cells, or numbers with a sign or without one. -/
def keyTypes : List String := ["", "I", "U"]

/-- What stands for the form of the value: a slice, a reference or a builder. -/
def valueForms : List String := ["", "REF", "B"]

/-- The opcode is the dictionary operation `verb`, for some type of keys and some form of value. -/
def SpellsDict (verb opcode : String) : Prop :=
  ∃ key ∈ keyTypes, ∃ form ∈ valueForms, opcode = "DICT" ++ key ++ verb ++ form

/-- Where the signature of an opcode comes from. -/
inductive Rule where
  | entry
  | family (family : Family)
deriving DecidableEq

/-- The opcodes that a rule is for. -/
def Rule.Covers (opcode : String) : Rule → Prop
  | entry => ∃ signature, (opcode, signature) ∈ fixedTable
  | family .dictSet => SpellsDict "SET" opcode
  | family .dictUpdate => SpellsDict "REPLACE" opcode ∨ SpellsDict "ADD" opcode
  | family .tuple => opcode = "TUPLE"
  | family .untuple => opcode = "UNTUPLE"
  | family .shift => opcode = "LSHIFT" ∨ opcode = "RSHIFT"
  | family .mulShift => opcode = "MULRSHIFT"

/-- What a line with the mnemonic resolves to. The number of values of a tuple has to be a word; the
line itself is told in faults only. -/
inductive Resolves (line : String) (m : Mnemonic) : Except Fault Signature → Prop
  | entry {signature : Signature} (h : (m.opcode, signature) ∈ fixedTable) :
      Resolves line m (.ok signature)
  | dictSet (h : Rule.Covers m.opcode (.family .dictSet)) : Resolves line m (.ok ⟨⟨4, 1⟩, false⟩)
  | dictUpdate (h : Rule.Covers m.opcode (.family .dictUpdate)) :
      Resolves line m (.ok ⟨⟨4, 2⟩, false⟩)
  | shift (h : Rule.Covers m.opcode (.family .shift)) :
      Resolves line m (.ok ⟨⟨if m.arg.isSome then 1 else 2, 1⟩, false⟩)
  | mulShift (h : Rule.Covers m.opcode (.family .mulShift)) :
      Resolves line m (.ok ⟨⟨if m.arg.isSome then 2 else 3, 1⟩, false⟩)
  | tuple {n : UInt32} {arg : String} (h : m.opcode = "TUPLE") (harg : m.arg = some arg)
      (hn : Text.IsNumeral arg n.toNat) : Resolves line m (.ok ⟨⟨n, 1⟩, false⟩)
  | untuple {n : UInt32} {arg : String} (h : m.opcode = "UNTUPLE") (harg : m.arg = some arg)
      (hn : Text.IsNumeral arg n.toNat) : Resolves line m (.ok ⟨⟨1, n⟩, false⟩)
  | countMissing (h : m.opcode = "TUPLE" ∨ m.opcode = "UNTUPLE") (harg : m.arg = none) :
      Resolves line m (.error (.countMissing m.opcode line))
  | countUnreadable {arg : String} (h : m.opcode = "TUPLE" ∨ m.opcode = "UNTUPLE")
      (harg : m.arg = some arg) (hn : ∀ n < UInt32.size, ¬Text.IsNumeral arg n) :
      Resolves line m (.error (.countUnreadable m.opcode arg))
  | unresolvable (h : ∀ rule, ¬Rule.Covers m.opcode rule) :
      Resolves line m (.error (.unresolvable m.opcode line))

/-! ## Each opcode has one rule -/

lemma lookup?_eq_some_iff {table : List (String × Signature)} (hnodup : (table.map Prod.fst).Nodup)
    {opcode : String} {signature : Signature} :
    lookup? opcode table = some signature ↔ (opcode, signature) ∈ table := by
  induction table with
  | nil => simp [lookup?]
  | cons row table ih =>
    rw [List.map_cons, List.nodup_cons] at hnodup
    have hih := ih hnodup.2
    unfold lookup? at hih ⊢
    rw [List.find?_cons]
    by_cases hrow : row.1 = opcode
    · have hrest : (opcode, signature) ∉ table := by
        intro hmem
        apply hnodup.1
        rw [hrow]
        exact List.mem_map_of_mem hmem
      simp only [hrow, decide_true, Option.map_some, Option.some_inj, List.mem_cons, hrest,
        or_false]
      rw [Prod.ext_iff]
      simp [hrow, eq_comm]
    · have hhead : (opcode, signature) ≠ row := by
        rintro rfl
        exact hrow rfl
      simp only [hrow, decide_false, List.mem_cons, hhead, false_or]
      exact hih

lemma nodup_fixedTable : (fixedTable.map Prod.fst).Nodup := by decide +kernel

/-- The letter for the keys is taken away wherever it stands, so the rest tells it from the verb. -/
lemma dictStem?_eq_some_iff {opcode rest : List Char} {c : Char} (hI : c ≠ 'I') (hU : c ≠ 'U') :
    dictStem? opcode = some (c :: rest) ↔
      ∃ key ∈ keyTypes, opcode = "DICT".toList ++ (key.toList ++ c :: rest) := by
  unfold dictStem?
  rw [Option.map_eq_some_iff]
  constructor
  · rintro ⟨stem, hstem, hrest⟩
    rw [Text.behind?_eq_some_iff] at hstem
    split at hrest
    · exact ⟨"I", by simp [keyTypes], by rw [hstem, hrest]; rfl⟩
    · exact ⟨"U", by simp [keyTypes], by rw [hstem, hrest]; rfl⟩
    · exact ⟨"", by simp [keyTypes], by rw [hstem, hrest]; rfl⟩
  · rintro ⟨key, hkey, hopcode⟩
    refine ⟨key.toList ++ c :: rest, Text.behind?_eq_some_iff.mpr hopcode, ?_⟩
    simp only [keyTypes, List.mem_cons, List.not_mem_nil, or_false] at hkey
    rcases hkey with rfl | rfl | rfl
    · rw [String.toList_empty, List.nil_append]
      split
      · next h => exact absurd (List.cons.inj h).1 hI
      · next h => exact absurd (List.cons.inj h).1 hU
      · rfl
    · rfl
    · rfl

/-- A verb that does not start like a type of keys is found where it is spelled and nowhere else. -/
lemma isDict_iff {verb opcode : String} {c : Char} {cs : List Char} (hverb : verb.toList = c :: cs)
    (hI : c ≠ 'I') (hU : c ≠ 'U') : isDict verb opcode.toList = true ↔ SpellsDict verb opcode := by
  have hform : isDict verb opcode.toList = true ↔
      ∃ form ∈ valueForms, dictStem? opcode.toList = some (verb.toList ++ form.toList) := by
    unfold isDict
    cases hstem : dictStem? opcode.toList with
    | none => simp
    | some stem =>
      rw [Option.bind_some]
      simp only [Option.some_inj]
      cases hbehind : Text.behind? verb.toList stem with
      | none =>
        refine iff_of_false (by simp) ?_
        rintro ⟨form, -, hstem'⟩
        rw [Text.behind?_eq_some_iff.mpr hstem'] at hbehind
        cases hbehind
      | some rest =>
        rw [Text.behind?_eq_some_iff] at hbehind
        subst hbehind
        simp only [List.append_cancel_left_eq]
        simp [valueForms, or_assoc]
  rw [hform]
  unfold SpellsDict
  constructor
  · rintro ⟨form, hmem, hstem⟩
    rw [hverb, List.cons_append, dictStem?_eq_some_iff hI hU] at hstem
    obtain ⟨key, hkey, hopcode⟩ := hstem
    refine ⟨key, hkey, form, hmem, ?_⟩
    rw [← String.toList_inj, hopcode]
    simp [hverb]
  · rintro ⟨key, hkey, form, hmem, rfl⟩
    refine ⟨form, hmem, ?_⟩
    rw [hverb, List.cons_append, dictStem?_eq_some_iff hI hU]
    exact ⟨key, hkey, by simp [hverb]⟩

lemma ofOpcode?_of_covers {opcode : String} {family : Family}
    (h : Rule.Covers opcode (.family family)) : Family.ofOpcode? opcode = some family := by
  cases family with
  | dictSet =>
    obtain ⟨key, hkey, form, hform, rfl⟩ := h
    have hall : ∀ key ∈ keyTypes, ∀ form ∈ valueForms,
        Family.ofOpcode? ("DICT" ++ key ++ "SET" ++ form) = some .dictSet := by decide
    exact hall key hkey form hform
  | dictUpdate =>
    rcases h with ⟨key, hkey, form, hform, rfl⟩ | ⟨key, hkey, form, hform, rfl⟩
    · have hall : ∀ key ∈ keyTypes, ∀ form ∈ valueForms,
          Family.ofOpcode? ("DICT" ++ key ++ "REPLACE" ++ form) = some .dictUpdate := by decide
      exact hall key hkey form hform
    · have hall : ∀ key ∈ keyTypes, ∀ form ∈ valueForms,
          Family.ofOpcode? ("DICT" ++ key ++ "ADD" ++ form) = some .dictUpdate := by decide
      exact hall key hkey form hform
  | tuple =>
    obtain rfl : opcode = "TUPLE" := h
    decide
  | untuple =>
    obtain rfl : opcode = "UNTUPLE" := h
    decide
  | shift => rcases h with rfl | rfl <;> decide
  | mulShift =>
    obtain rfl : opcode = "MULRSHIFT" := h
    decide

/-- The family of an opcode is the one whose rule is for it. -/
lemma ofOpcode?_eq_some_iff {opcode : String} {family : Family} :
    Family.ofOpcode? opcode = some family ↔ Rule.Covers opcode (.family family) := by
  refine ⟨fun h => ?_, ofOpcode?_of_covers⟩
  unfold Family.ofOpcode? at h
  split_ifs at h with hset hupdate htuple huntuple hshift hmul <;> obtain rfl := Option.some.inj h
  · exact (isDict_iff rfl (by decide) (by decide)).mp hset
  · rw [Bool.or_eq_true] at hupdate
    rcases hupdate with hreplace | hadd
    · exact .inl ((isDict_iff rfl (by decide) (by decide)).mp hreplace)
    · exact .inr ((isDict_iff rfl (by decide) (by decide)).mp hadd)
  · exact htuple
  · exact huntuple
  · simpa [Rule.Covers] using hshift
  · exact hmul

lemma ofOpcode?_of_mem_fixedTable {opcode : String} {signature : Signature}
    (h : (opcode, signature) ∈ fixedTable) : Family.ofOpcode? opcode = none := by
  have hall : ∀ row ∈ fixedTable, Family.ofOpcode? row.1 = none := by decide +kernel
  exact hall (opcode, signature) h

theorem Rule.Covers.unique {opcode : String} {rule rule' : Rule} (h : Rule.Covers opcode rule)
    (h' : Rule.Covers opcode rule') : rule = rule' := by
  cases rule with
  | entry =>
    obtain ⟨signature, hrow⟩ := h
    cases rule' with
    | entry => rfl
    | family family =>
      have hnone := ofOpcode?_of_mem_fixedTable hrow
      rw [ofOpcode?_of_covers h'] at hnone
      cases hnone
  | family family =>
    have hfamily := ofOpcode?_of_covers h
    cases rule' with
    | entry =>
      obtain ⟨signature, hrow⟩ := h'
      rw [ofOpcode?_of_mem_fixedTable hrow] at hfamily
      cases hfamily
    | family family' =>
      rw [ofOpcode?_of_covers h', Option.some_inj] at hfamily
      rw [hfamily]

/-! ## What a line resolves to -/

section

variable {m : Mnemonic} {line : String}

lemma resolveMnemonic_of_entry {signature : Signature} (h : (m.opcode, signature) ∈ fixedTable) :
    resolveMnemonic m line = .silent (.ok signature) := by
  have hrow : lookup? m.opcode fixedTable = some signature :=
    (lookup?_eq_some_iff nodup_fixedTable).mpr h
  unfold resolveMnemonic
  rw [hrow]

lemma outcome_of_entry {signature : Signature} (h : (m.opcode, signature) ∈ fixedTable) :
    (resolveMnemonic m line).outcome = .ok signature := by
  rw [resolveMnemonic_of_entry h]
  rfl

lemma lookup?_eq_none_of_covers {family : Family}
    (h : Rule.Covers m.opcode (.family family)) : lookup? m.opcode fixedTable = none := by
  rw [Option.eq_none_iff_forall_ne_some]
  intro signature hrow
  rw [lookup?_eq_some_iff nodup_fixedTable] at hrow
  have hrule : Rule.family family = .entry := h.unique ⟨signature, hrow⟩
  cases hrule

lemma resolveMnemonic_of_family {family : Family} (h : Rule.Covers m.opcode (.family family)) :
    resolveMnemonic m line = resolveFamily m line family := by
  unfold resolveMnemonic
  rw [lookup?_eq_none_of_covers h, ofOpcode?_of_covers h]

lemma outcome_of_family {family : Family} (h : Rule.Covers m.opcode (.family family)) :
    (resolveMnemonic m line).outcome = (family.effect m line).map fun effect => ⟨effect, false⟩ := by
  rw [resolveMnemonic_of_family h]
  unfold resolveFamily
  cases family.effect m line with
  | ok effect => rfl
  | error fault => rfl

lemma resolveMnemonic_of_forall_not_covers (h : ∀ rule, ¬Rule.Covers m.opcode rule) :
    resolveMnemonic m line = ⟨.error (.unresolvable m.opcode line), [.noOpcodeRule line]⟩ := by
  have hrow : lookup? m.opcode fixedTable = none := by
    rw [Option.eq_none_iff_forall_ne_some]
    intro signature hsome
    rw [lookup?_eq_some_iff nodup_fixedTable] at hsome
    exact h .entry ⟨signature, hsome⟩
  have hfamily : Family.ofOpcode? m.opcode = none := by
    rw [Option.eq_none_iff_forall_ne_some]
    intro family hsome
    exact h (.family family) (ofOpcode?_eq_some_iff.mp hsome)
  unfold resolveMnemonic
  rw [hrow, hfamily]

lemma outcome_of_forall_not_covers (h : ∀ rule, ¬Rule.Covers m.opcode rule) :
    (resolveMnemonic m line).outcome = .error (.unresolvable m.opcode line) := by
  rw [resolveMnemonic_of_forall_not_covers h]

lemma word?_eq_none_iff {text : String} :
    Text.word? text = none ↔ ∀ n < UInt32.size, ¬Text.IsNumeral text n := by
  rw [Option.eq_none_iff_forall_ne_some]
  constructor
  · intro h n hn hnumeral
    apply h (UInt32.ofNat n)
    rwa [Text.word?_eq_some_iff, UInt32.toNat_ofNat_of_lt' hn]
  · intro h n hn
    exact h n.toNat n.toNat_lt_size (Text.word?_eq_some_iff.mp hn)

lemma count_of_isNumeral {n : UInt32} {arg : String} (harg : m.arg = some arg)
    (hn : Text.IsNumeral arg n.toNat) : Family.count m line = .ok n := by
  unfold Family.count
  simp only [harg, Text.word?_eq_some_iff.mpr hn]

lemma count_of_arg_eq_none (harg : m.arg = none) :
    Family.count m line = .error (.countMissing m.opcode line) := by
  unfold Family.count
  simp only [harg]

lemma count_of_forall_not_isNumeral {arg : String} (harg : m.arg = some arg)
    (hn : ∀ n < UInt32.size, ¬Text.IsNumeral arg n) :
    Family.count m line = .error (.countUnreadable m.opcode arg) := by
  unfold Family.count
  simp only [harg, word?_eq_none_iff.mpr hn]

/-- A tuple operation has the signature that its count gives, or the fault of a count. -/
lemma resolves_count {signature : UInt32 → Signature} (h : m.opcode = "TUPLE" ∨ m.opcode = "UNTUPLE")
    (hok : ∀ n arg, m.arg = some arg → Text.IsNumeral arg n.toNat →
      Resolves line m (.ok (signature n))) :
    Resolves line m ((Family.count m line).map signature) := by
  cases harg : m.arg with
  | none =>
    rw [count_of_arg_eq_none harg]
    exact .countMissing h harg
  | some arg =>
    cases hword : Text.word? arg with
    | some n =>
      have hn : Text.IsNumeral arg n.toNat := Text.word?_eq_some_iff.mp hword
      rw [count_of_isNumeral harg hn]
      exact hok n arg harg hn
    | none =>
      have hn := word?_eq_none_iff.mp hword
      rw [count_of_forall_not_isNumeral harg hn]
      exact .countUnreadable h harg hn

/-- The signatures of a family are those of its effects. -/
lemma map_effect (count : Except Fault UInt32) (effect : UInt32 → StackEffect) :
    ((count.map effect).map fun effect => Signature.mk effect false) =
      count.map fun n => ⟨effect n, false⟩ := by
  cases count <;> rfl

end

lemma resolves_resolveMnemonic (m : Mnemonic) (line : String) :
    Resolves line m (resolveMnemonic m line).outcome := by
  by_cases hall : ∀ rule, ¬Rule.Covers m.opcode rule
  · rw [outcome_of_forall_not_covers hall]
    exact .unresolvable hall
  · obtain ⟨rule, hrule⟩ := not_forall_not.mp hall
    cases rule with
    | entry =>
      obtain ⟨signature, hrow⟩ := hrule
      rw [outcome_of_entry hrow]
      exact .entry hrow
    | family family =>
      rw [outcome_of_family hrule]
      cases family with
      | dictSet => exact .dictSet hrule
      | dictUpdate => exact .dictUpdate hrule
      | shift => exact .shift hrule
      | mulShift => exact .mulShift hrule
      | tuple =>
        rw [Family.effect, map_effect]
        apply resolves_count (.inl hrule)
        intro n arg harg hn
        exact .tuple hrule harg hn
      | untuple =>
        rw [Family.effect, map_effect]
        apply resolves_count (.inr hrule)
        intro n arg harg hn
        exact .untuple hrule harg hn

/-- A count that cannot be read is the fault of either tuple operation. -/
lemma resolveMnemonic_of_count_eq_error {m : Mnemonic} {line : String} {fault : Fault}
    (h : m.opcode = "TUPLE" ∨ m.opcode = "UNTUPLE") (hcount : Family.count m line = .error fault) :
    resolveMnemonic m line = .silent (.error fault) := by
  rcases h with h | h
  · have hrule : Rule.Covers m.opcode (.family .tuple) := h
    rw [resolveMnemonic_of_family hrule, resolveFamily, Family.effect, hcount]
    rfl
  · have hrule : Rule.Covers m.opcode (.family .untuple) := h
    rw [resolveMnemonic_of_family hrule, resolveFamily, Family.effect, hcount]
    rfl

lemma outcome_of_count_eq_error {m : Mnemonic} {line : String} {fault : Fault}
    (h : m.opcode = "TUPLE" ∨ m.opcode = "UNTUPLE") (hcount : Family.count m line = .error fault) :
    (resolveMnemonic m line).outcome = .error fault := by
  rw [resolveMnemonic_of_count_eq_error h hcount]
  rfl

/-- No line resolves to two things. -/
lemma Resolves.eq_outcome {m : Mnemonic} {line : String} {result : Except Fault Signature}
    (h : Resolves line m result) : (resolveMnemonic m line).outcome = result := by
  cases h with
  | entry h => exact outcome_of_entry h
  | dictSet h => exact outcome_of_family h
  | dictUpdate h => exact outcome_of_family h
  | shift h => exact outcome_of_family h
  | mulShift h => exact outcome_of_family h
  | tuple h harg hn =>
    have hrule : Rule.Covers m.opcode (.family .tuple) := h
    rw [outcome_of_family hrule, Family.effect, count_of_isNumeral harg hn]
    rfl
  | untuple h harg hn =>
    have hrule : Rule.Covers m.opcode (.family .untuple) := h
    rw [outcome_of_family hrule, Family.effect, count_of_isNumeral harg hn]
    rfl
  | countMissing h harg => exact outcome_of_count_eq_error h (count_of_arg_eq_none harg)
  | countUnreadable h harg hn =>
    exact outcome_of_count_eq_error h (count_of_forall_not_isNumeral harg hn)
  | unresolvable h => exact outcome_of_forall_not_covers h

lemma Resolves.isPure_eq_false {m : Mnemonic} {line : String} {signature : Signature}
    (h : Resolves line m (.ok signature)) (hentry : ¬Rule.Covers m.opcode .entry) :
    signature.isPure = false := by
  cases h with
  | entry h => exact absurd ⟨signature, h⟩ hentry
  | dictSet | dictUpdate | shift | mulShift | tuple | untuple => rfl

lemma Resolves.opcode_of_error {m : Mnemonic} {line : String} {fault : Fault}
    (h : Resolves line m (.error fault)) (hfault : fault.isUnresolvable = false) :
    m.opcode = "TUPLE" ∨ m.opcode = "UNTUPLE" := by
  cases h with
  | countMissing h _ => exact h
  | countUnreadable h _ _ => exact h
  | unresolvable _ => cases hfault

/-- The opcodes of throws have no rule. -/
lemma not_covers_of_lookup?_throwTable {opcode : String} {signature : Signature}
    (h : lookup? opcode throwTable = some signature) (rule : Rule) :
    ¬Rule.Covers opcode rule := by
  have hall : ∀ row ∈ throwTable,
      lookup? row.1 fixedTable = none ∧ Family.ofOpcode? row.1 = none := by decide +kernel
  obtain ⟨row, hfind, -⟩ := Option.map_eq_some_iff.mp h
  obtain ⟨htable, hfamily⟩ := hall row (List.mem_of_find?_eq_some hfind)
  have hopcode : row.1 = opcode := by simpa using List.find?_some hfind
  rw [hopcode] at htable hfamily
  intro hrule
  cases rule with
  | entry =>
    obtain ⟨entry, hrow⟩ := hrule
    rw [(lookup?_eq_some_iff nodup_fixedTable).mpr hrow] at htable
    cases htable
  | family family =>
    rw [ofOpcode?_of_covers hrule] at hfamily
    cases hfamily

lemma lookup?_of_resolveThrowMnemonic {m : Mnemonic} {line : String} {signature : Signature}
    (h : (resolveThrowMnemonic m line).outcome = .ok signature) :
    lookup? m.opcode throwTable = some signature := by
  unfold resolveThrowMnemonic at h
  cases hrow : lookup? m.opcode throwTable with
  | none =>
    rw [hrow] at h
    cases h
  | some entry =>
    rw [hrow] at h
    rw [Except.ok.inj h]

/-- What a line resolves to is what the rule for its opcode says; an opcode without a rule is
reported with the line as it is. An instruction takes the signature of its line, or the fault. No
opcode has two rules, and those that are not in the table give no pure signature. A count is the
only other thing that can be at fault, and no line is both an instruction and a throw. -/
theorem resolve_eq_iff_resolves :
    (∀ line, (Build.instruction line).outcome =
      (resolve line).outcome.map fun signature => ⟨Mnemonic.parse line, signature⟩) ∧
    (∀ line result, (resolve line).outcome = result ↔
      Resolves line (Mnemonic.parse line) result) ∧
    (∀ opcode rule rule', Rule.Covers opcode rule → Rule.Covers opcode rule' → rule = rule') ∧
    (∀ line signature, (resolve line).outcome = .ok signature →
      ¬Rule.Covers (Mnemonic.parse line).opcode .entry → signature.isPure = false) ∧
    (∀ line fault, (resolve line).outcome = .error fault → fault.isUnresolvable = false →
      (Mnemonic.parse line).opcode = "TUPLE" ∨ (Mnemonic.parse line).opcode = "UNTUPLE") ∧
    ∀ line i e, (Build.instruction line).outcome = .ok i →
      (Build.throwing line).outcome ≠ .ok e := by
  refine ⟨?_, ?_, fun _ _ _ h h' => h.unique h', ?_, ?_, ?_⟩
  · intro line
    simp only [Build.instruction, resolve, Attempt.map]
  · intro line result
    rw [resolve]
    constructor
    · rintro rfl
      exact resolves_resolveMnemonic _ line
    · intro h
      exact h.eq_outcome
  · intro line signature h hentry
    have hresolves := resolves_resolveMnemonic (Mnemonic.parse line) line
    rw [resolve] at h
    rw [h] at hresolves
    exact hresolves.isPure_eq_false hentry
  · intro line fault h hfault
    have hresolves := resolves_resolveMnemonic (Mnemonic.parse line) line
    rw [resolve] at h
    rw [h] at hresolves
    exact hresolves.opcode_of_error hfault
  · intro line i e hi he
    obtain ⟨-, hresolve⟩ := Build.instruction_eq_ok_iff.mp hi
    obtain ⟨-, signature, hthrow, -⟩ := Build.throwing_eq_ok_iff.mp he
    have hrow := lookup?_of_resolveThrowMnemonic hthrow
    rw [outcome_of_forall_not_covers (not_covers_of_lookup?_throwTable hrow)] at hresolve
    cases hresolve

def tupleFault : Fault := .countUnreadable "TUPLE" "4294967296"

def addition : Instruction := ⟨⟨"ADD", none, some "sum"⟩, ⟨⟨2, 1⟩, false⟩⟩

/-- The largest count is a word, leading zeros and a plus sign aside, and the next number is none. -/
theorem resolve_eq_iff_resolves_samples :
    Resolves "TUPLE +04294967295" ⟨"TUPLE", some "+04294967295", none⟩
      (.ok ⟨⟨4294967295, 1⟩, false⟩) ∧
    ((resolve "TUPLE 4294967296").outcome = .error tupleFault ∧
      tupleFault.isUnresolvable = false ∧
      ((Mnemonic.parse "TUPLE 4294967296").opcode = "TUPLE" ∨
        (Mnemonic.parse "TUPLE 4294967296").opcode = "UNTUPLE")) ∧
    (Rule.Covers "DICTUSETB" (.family .dictSet) ∧ ¬Rule.Covers "DICTUSETB" .entry ∧
      (resolve "DICTUSETB").outcome = .ok ⟨⟨4, 1⟩, false⟩ ∧
      (⟨⟨4, 1⟩, false⟩ : Signature).isPure = false) ∧
    (Build.instruction "ADD ;sum").outcome = .ok addition ∧
    (Build.throwing "ADD ;sum").outcome ≠ .ok Build.ret := by
  obtain ⟨-, hresolves, hunique, hpure, hfault, hthrow⟩ := resolve_eq_iff_resolves
  have htuple : (resolve "TUPLE 4294967296").outcome = .error tupleFault := rfl
  have hdict : (resolve "DICTUSETB").outcome = .ok ⟨⟨4, 1⟩, false⟩ := rfl
  have hadd : (Build.instruction "ADD ;sum").outcome = .ok addition := rfl
  have hset : Rule.Covers "DICTUSETB" (.family .dictSet) :=
    ⟨"U", by decide, "B", by decide, by decide⟩
  have hentry : ¬Rule.Covers "DICTUSETB" .entry := by
    intro h
    cases hunique _ _ _ hset h
  exact ⟨(hresolves "TUPLE +04294967295" _).mp rfl, ⟨htuple, rfl, hfault _ _ htuple rfl⟩,
    ⟨hset, hentry, hdict, hpure _ _ hdict hentry⟩, hadd, hthrow _ _ _ hadd⟩

end Opcode

end TvmAssembly
