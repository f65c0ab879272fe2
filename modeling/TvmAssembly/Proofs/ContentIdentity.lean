import TvmAssembly.Identity.ContentId
import TvmAssembly.Proofs.StreamDecoding

/-!
# What a content identity tells

Two built blocks, and two built functions, are written down alike exactly when they agree up to
annotations. Of programs the same holds of their identities, as long as the hash does not collide
on what is hashed for them: pragmas and functions count in their order.
-/

namespace TvmAssembly

/-- Functions of one kind, effect and code. Name and annotations may differ. -/
def Function.SameCode (f g : Function) : Prop :=
  f.kind = g.kind ∧ f.effect = g.effect ∧ f.block.unannotated = g.block.unannotated

lemma Function.unannotated_eq_iff {f g : Function} :
    f.unannotated = g.unannotated ↔ f.SameCode g := by
  obtain ⟨name, kind, effect, block⟩ := f
  obtain ⟨name', kind', effect', block'⟩ := g
  simp [Function.unannotated, SameCode]

namespace Identity

lemma blockPreimage_eq_marks (b : Block) : blockPreimage b = version :: blockMarks b :=
  blockPreimage_eq b

lemma functionPreimage_eq_marks (f : Function) :
    functionPreimage f =
      version :: 0x0D :: position f.kind.index :: (effect f.effect ++ blockMarks f.block) := by
  rw [functionPreimage_eq]
  simp [Function.events, mark, containerMark, blockMarks]

lemma readable_of_built {b : Block} (hb : b.Built) (hf : b.Fits) : ∀ e ∈ b.events, Readable e :=
  fun e he => ⟨hf e he, hb.sound e he⟩

lemma blockMarks_eq_iff {a b : Block} (ra : ∀ e ∈ a.events, Readable e)
    (rb : ∀ e ∈ b.events, Readable e) :
    blockMarks a = blockMarks b ↔ a.unannotated = b.unannotated := by
  constructor
  · intro h
    have happend : blockMarks a ++ [] = blockMarks b ++ [] := by rw [h]
    exact (blockMarks_append_inj a b ra rb happend).1
  · intro h
    rw [← blockMarks_unannotated a, h, blockMarks_unannotated]

lemma functionPreimage_eq_iff {f g : Function} (rf : ∀ e ∈ f.block.events, Readable e)
    (rg : ∀ e ∈ g.block.events, Readable e) :
    functionPreimage f = functionPreimage g ↔ f.SameCode g := by
  rw [functionPreimage_eq_marks, functionPreimage_eq_marks]
  constructor
  · intro h
    simp only [List.cons.injEq, true_and] at h
    obtain ⟨heffect, hblock⟩ := effect_append_inj h.2
    exact ⟨functionKind_eq_of_position h.1, heffect, (blockMarks_eq_iff rf rg).1 hblock⟩
  · rintro ⟨hkind, heffect, hblock⟩
    rw [hkind, heffect, (blockMarks_eq_iff rf rg).2 hblock]

/-- A sum, then a jump into an inverted branch. The comment is that of the sum. -/
def sampleBody (comment : Option String) (arm : List Node) : List Node :=
  [.leaf (.instruction ⟨⟨"ADD", none, comment⟩, ⟨⟨2, 1⟩, false⟩⟩),
    .conditional .jumpIfFalse ⟨.ifJmpRef, arm⟩ none]

def plainSample : Block := ⟨.pushCont, sampleBody none []⟩

/-- The same code with a comment, and with locations at two depths. -/
def annotatedSample : Block :=
  ⟨.pushCont, .leaf (.location ⟨"sum.fc", 3⟩) ::
    sampleBody (some "sum") [.leaf (.location ⟨"sum.fc", 4⟩)]⟩

def plainFunction : Function := ⟨"plus", .fragment, ⟨2, 1⟩, plainSample⟩

def annotatedFunction : Function := ⟨"sum", .fragment, ⟨2, 1⟩, annotatedSample⟩

lemma built_branch {arm : List Node} (h : ∀ n ∈ arm, n.Built) :
    (Node.conditional .jumpIfFalse ⟨.ifJmpRef, arm⟩ none).Built := by
  have harm : Block.Built ⟨.ifJmpRef, arm⟩ := .block .ifJmpRef h
  have hmade : Conditional.Built ⟨.jumpIfTrue, ⟨.ifJmpRef, arm⟩, none⟩ :=
    @Conditional.Built.conditional .jumpIfTrue _ none _ harm (by simp) rfl
  exact .conditional hmade.invert

lemma built_plainSample : plainSample.Built := by
  refine .block .pushCont ?_
  simp only [sampleBody, List.forall_mem_cons]
  exact ⟨.leaf (@Leaf.Built.instruction "ADD" _ rfl), built_branch (by simp), by simp⟩

lemma built_annotatedSample : annotatedSample.Built := by
  refine .block .pushCont ?_
  have hlocation (l : Location) : (Node.leaf (.location l)).Built := .leaf (.location l)
  simp only [sampleBody, List.forall_mem_cons]
  exact ⟨hlocation _, .leaf (@Leaf.Built.instruction "ADD ;sum" _ rfl),
    built_branch (by simpa using hlocation _), by simp⟩

lemma built_plainFunction : plainFunction.Built :=
  @Function.Built.function "plus" _ _ _ _ built_plainSample rfl

lemma built_annotatedFunction : annotatedFunction.Built :=
  @Function.Built.function "sum" _ _ _ _ built_annotatedSample rfl

lemma fits_plainSample : plainSample.Fits := by
  have h : "ADD".utf8ByteSize < UInt32.size := by decide
  simpa [Block.Fits, plainSample, sampleBody, Block.events, bodyEvents, Node.events, childEvents,
    Event.Fits, Leaf.Fits, Mnemonic.Fits] using h

lemma fits_annotatedSample : annotatedSample.Fits := by
  have h : "ADD".utf8ByteSize < UInt32.size := by decide
  simpa [Block.Fits, annotatedSample, sampleBody, Block.events, bodyEvents, Node.events,
    childEvents, Event.Fits, Leaf.Fits, Mnemonic.Fits] using h

/-- A built tree is written down as its code: what is written determines the tree up to
annotations, and annotations leave no trace in it. -/
theorem preimage_eq_iff_unannotated_eq :
    (∀ a b : Block, a.Built → b.Built → a.Fits → b.Fits →
      (blockPreimage a = blockPreimage b ↔ a.unannotated = b.unannotated)) ∧
    ∀ f g : Function, f.Built → g.Built → f.block.Fits → g.block.Fits →
      (functionPreimage f = functionPreimage g ↔ f.unannotated = g.unannotated) := by
  constructor
  · intro a b ha hb fa fb
    rw [blockPreimage_eq_marks, blockPreimage_eq_marks, List.cons_inj_right]
    exact blockMarks_eq_iff (readable_of_built ha fa) (readable_of_built hb fb)
  · intro f g hf hg ff fg
    rw [Function.unannotated_eq_iff]
    exact functionPreimage_eq_iff (readable_of_built hf.built_block ff)
      (readable_of_built hg.built_block fg)

theorem preimage_annotatedSample :
    (annotatedSample.Built ∧ plainSample.Built ∧ annotatedSample.Fits ∧ plainSample.Fits) ∧
      (annotatedFunction.Built ∧ plainFunction.Built) ∧
      blockPreimage annotatedSample = blockPreimage plainSample ∧
      functionPreimage annotatedFunction = functionPreimage plainFunction := by
  refine ⟨⟨built_annotatedSample, built_plainSample, fits_annotatedSample, fits_plainSample⟩,
    ⟨built_annotatedFunction, built_plainFunction⟩, ?_, ?_⟩
  · exact (preimage_eq_iff_unannotated_eq.1 _ _ built_annotatedSample built_plainSample
      fits_annotatedSample fits_plainSample).2 rfl
  · exact (preimage_eq_iff_unannotated_eq.2 _ _ built_annotatedFunction built_plainFunction
      fits_annotatedSample fits_plainSample).2 rfl

/-- Digests have one length, so a list of them is read back without marks between. -/
lemma map_eq_of_flatMap_eq {α : Type} {digest : α → Bytes} {n : Nat}
    (hlen : ∀ a, (digest a).length = n) {as bs : List α} (hcount : as.length = bs.length)
    (h : as.flatMap digest = bs.flatMap digest) : as.map digest = bs.map digest := by
  induction as generalizing bs with
  | nil =>
    obtain rfl := List.length_eq_zero_iff.1 hcount.symm
    rfl
  | cons a as ih =>
    cases bs with
    | nil => simp at hcount
    | cons b bs =>
      rw [List.flatMap_cons, List.flatMap_cons] at h
      obtain ⟨hhead, htail⟩ := List.append_inj h ((hlen a).trans (hlen b).symm)
      rw [List.map_cons, List.map_cons, hhead, ih (Nat.succ.inj hcount) htail]

end Identity

namespace ContentId

lemma bytes_inj {c d : ContentId} : c.bytes = d.bytes ↔ c = d := by
  obtain ⟨digest⟩ := c
  obtain ⟨digest'⟩ := d
  rw [bytes, bytes, Vector.toList_inj, mk.injEq]

lemma length_bytes (c : ContentId) : c.bytes.length = 32 := by
  rw [bytes, Vector.length_toList]

end ContentId

/-- No two different inputs of the list have one digest. -/
def Blake3.CollisionFree (inputs : List Bytes) : Prop :=
  ∀ x ∈ inputs, ∀ y ∈ inputs, digest x = digest y → x = y

instance (inputs : List Bytes) : Decidable (Blake3.CollisionFree inputs) :=
  inferInstanceAs (Decidable (∀ x ∈ inputs, ∀ y ∈ inputs, _ → _))

lemma Blake3.CollisionFree.eq_of_ofPreimage_eq {inputs : List Bytes} (h : CollisionFree inputs)
    {x y : Bytes} (hx : x ∈ inputs) (hy : y ∈ inputs)
    (he : ContentId.ofPreimage x = ContentId.ofPreimage y) : x = y :=
  h x hx y hy (congrArg ContentId.digest he)

/-- The program's lists and texts, and those of its code, have lengths that a word can hold. -/
structure Program.Fits (p : Program) : Prop where
  pragmas_length : p.pragmas.length < UInt32.size
  pragmas : ∀ pragma ∈ p.pragmas, pragma.utf8ByteSize < UInt32.size
  functions_length : p.functions.length < UInt32.size
  functions : ∀ f ∈ p.functions, f.block.Fits

namespace Program

open Identity

def preimage (p : Program) : Bytes := programPreimage (fun f => f.contentId.bytes) p

/-- All that is hashed on the way to the identity of a program. -/
def hashInputs (p : Program) : List Bytes := p.preimage :: p.functions.map functionPreimage

lemma contentId_eq_ofPreimage (p : Program) : p.contentId = .ofPreimage p.preimage := rfl

/-- What a program is written down as determines its pragmas and the identities of its functions,
each in their order. -/
lemma preimage_eq_iff {p q : Program} (hp : p.Fits) (hq : q.Fits) :
    p.preimage = q.preimage ↔
      p.pragmas = q.pragmas ∧
        p.functions.map (·.contentId.bytes) = q.functions.map (·.contentId.bytes) := by
  simp only [preimage, programPreimage, List.append_assoc, List.append_cancel_left_eq]
  constructor
  · intro h
    obtain ⟨hcount, htexts⟩ := size_append_inj hp.pragmas_length hq.pragmas_length h
    obtain ⟨hpragmas, hsize⟩ := texts_append_inj hp.pragmas hq.pragmas hcount htexts
    obtain ⟨hlength, hids⟩ := size_append_inj hp.functions_length hq.functions_length hsize
    exact ⟨hpragmas, map_eq_of_flatMap_eq (fun f => f.contentId.length_bytes) hlength hids⟩
  · rintro ⟨hpragmas, hids⟩
    have hlength : p.functions.length = q.functions.length := by
      simpa using congrArg List.length hids
    have hbytes : p.functions.flatMap (·.contentId.bytes) =
        q.functions.flatMap (·.contentId.bytes) := by
      rw [List.flatMap_def, hids, List.flatMap_def]
    rw [hpragmas, hlength, hbytes]

/-- Without a collision, equal identities of functions come from functions of the same code. -/
lemma contentId_bytes_eq_iff {p q : Program} (bp : p.Built) (bq : q.Built) (hp : p.Fits)
    (hq : q.Fits) (hfree : Blake3.CollisionFree (p.hashInputs ++ q.hashInputs)) {f g : Function}
    (hf : f ∈ p.functions) (hg : g ∈ q.functions) :
    f.contentId.bytes = g.contentId.bytes ↔ f.SameCode g := by
  have rf := readable_of_built (bp f hf).built_block (hp.functions f hf)
  have rg := readable_of_built (bq g hg).built_block (hq.functions g hg)
  rw [ContentId.bytes_inj, ← functionPreimage_eq_iff rf rg]
  constructor
  · intro h
    have mf : functionPreimage f ∈ p.hashInputs := List.mem_cons_of_mem _ (List.mem_map_of_mem hf)
    have mg : functionPreimage g ∈ q.hashInputs := List.mem_cons_of_mem _ (List.mem_map_of_mem hg)
    exact hfree.eq_of_ofPreimage_eq (List.mem_append_left _ mf) (List.mem_append_right _ mg) h
  · intro h
    rw [Function.contentId, Function.contentId, h]

def plainProgram : Program := ⟨["version"], [plainFunction]⟩

def annotatedProgram : Program := ⟨["version"], [annotatedFunction]⟩

/-- The identity of a program tells its pragmas and, position by position, the code of its
functions. The identities of blocks, functions and programs are kept apart. No digest of 32 bytes
is free of collisions on all inputs, so that is asked of those at hand. -/
theorem contentId_eq_iff_sameCode :
    (∀ p q : Program, p.Built → q.Built → p.Fits → q.Fits →
      Blake3.CollisionFree (p.hashInputs ++ q.hashInputs) →
      (p.contentId = q.contentId ↔
        p.pragmas = q.pragmas ∧ p.functions.length = q.functions.length ∧
          ∀ (i : Nat) (hp : i < p.functions.length) (hq : i < q.functions.length),
            p.functions[i].SameCode q.functions[i])) ∧
    ∀ (b : Block) (f : Function) (p : Program),
      Blake3.CollisionFree [blockPreimage b, functionPreimage f, p.preimage] →
      b.contentId ≠ f.contentId ∧ f.contentId ≠ p.contentId ∧ b.contentId ≠ p.contentId := by
  constructor
  · intro p q bp bq hp hq hfree
    have hids : p.contentId = q.contentId ↔ p.preimage = q.preimage := by
      rw [contentId_eq_ofPreimage, contentId_eq_ofPreimage]
      constructor
      · intro h
        exact hfree.eq_of_ofPreimage_eq (List.mem_append_left _ List.mem_cons_self)
          (List.mem_append_right _ List.mem_cons_self) h
      · intro h
        rw [h]
    rw [hids, preimage_eq_iff hp hq]
    refine and_congr_right fun _ => ?_
    rw [List.ext_getElem_iff]
    simp only [List.length_map, List.getElem_map]
    refine and_congr_right fun _ => ?_
    refine forall_congr' fun i => forall_congr' fun hi => forall_congr' fun hj => ?_
    exact contentId_bytes_eq_iff bp bq hp hq hfree (List.getElem_mem hi) (List.getElem_mem hj)
  · intro b f p hfree
    rw [Block.contentId, Function.contentId, contentId_eq_ofPreimage]
    refine ⟨?_, ?_, ?_⟩
    · intro h
      have he := hfree.eq_of_ofPreimage_eq (by simp) (by simp) h
      simp [blockPreimage_eq_marks, blockMarks_eq, functionPreimage_eq_marks] at he
    · intro h
      have he := hfree.eq_of_ofPreimage_eq (by simp) (by simp) h
      simp [functionPreimage_eq_marks, preimage, programPreimage] at he
    · intro h
      have he := hfree.eq_of_ofPreimage_eq (by simp) (by simp) h
      simp [blockPreimage_eq_marks, blockMarks_eq, preimage, programPreimage] at he

theorem contentId_annotatedProgram :
    (annotatedProgram.Built ∧ plainProgram.Built ∧ annotatedProgram.Fits ∧ plainProgram.Fits) ∧
      Blake3.CollisionFree (annotatedProgram.hashInputs ++ plainProgram.hashInputs) ∧
      annotatedProgram.contentId = plainProgram.contentId ∧
      Blake3.CollisionFree
        [blockPreimage plainSample, functionPreimage plainFunction, plainProgram.preimage] ∧
      plainSample.contentId ≠ plainFunction.contentId ∧
      plainFunction.contentId ≠ plainProgram.contentId ∧
      plainSample.contentId ≠ plainProgram.contentId := by
  have ba : annotatedProgram.Built := by
    simpa [Program.Built, annotatedProgram] using built_annotatedFunction
  have bp : plainProgram.Built := by
    simpa [Program.Built, plainProgram] using built_plainFunction
  have hversion : "version".utf8ByteSize < UInt32.size := by decide
  have fa : annotatedProgram.Fits :=
    ⟨by decide, by simpa [annotatedProgram] using hversion, by decide,
      by simpa [annotatedProgram, annotatedFunction] using fits_annotatedSample⟩
  have fp : plainProgram.Fits :=
    ⟨by decide, by simpa [plainProgram] using hversion, by decide,
      by simpa [plainProgram, plainFunction] using fits_plainSample⟩
  have hfree : Blake3.CollisionFree (annotatedProgram.hashInputs ++ plainProgram.hashInputs) := by
    decide +kernel
  have hapart : Blake3.CollisionFree
      [blockPreimage plainSample, functionPreimage plainFunction, plainProgram.preimage] := by
    decide +kernel
  have hsame : annotatedFunction.SameCode plainFunction := ⟨rfl, rfl, rfl⟩
  refine ⟨⟨ba, bp, fa, fp⟩, hfree, ?_, hapart, contentId_eq_iff_sameCode.2 _ _ _ hapart⟩
  refine (contentId_eq_iff_sameCode.1 _ _ ba bp fa fp hfree).2 ⟨rfl, rfl, ?_⟩
  intro i hi _
  obtain rfl : i = 0 := Nat.lt_one_iff.1 hi
  exact hsame

end Program

end TvmAssembly
