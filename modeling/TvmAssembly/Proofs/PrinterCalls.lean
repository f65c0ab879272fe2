import TvmAssembly.Proofs.BuiltTrees
import TvmAssembly.Proofs.EventPasses
import TvmAssembly.Print.Printer
import TvmAssembly.Walk.Record

/-!
# Calls of the printer

The printer turns away from literals, branches, loops and functions, and walks through what they
hold by itself: it accepts their blocks again, or only the nodes in them where a header of its own
takes the place of the frame. `Watched` is the printer together with the calls that it gets on the
way, those it brings about itself included. The calls that bring a leaf or a literal are the same,
and in the same order, as those of a visitor that goes everywhere.
-/

namespace TvmAssembly

def Tree.pieces : Tree → List Piece
  | .node n => n.pieces
  | .function f => f.pieces
  | .program p => p.pieces

lemma Printer.tree_visitor (p : Printer) (t : Tree) :
    visitor.tree t p = p.print t.pieces := by
  cases t with
  | node n => exact p.node_visitor n
  | function f => exact p.function_visitor f
  | program program => exact p.program_visitor program

/-- A tree that the factories and inversions give. -/
def Tree.Built : Tree → Prop
  | .node n => n.Built
  | .function f => f.Built
  | .program p => p.Built

lemma Function.Built.sound {f : Function} (h : f.Built) : ∀ e ∈ f.events, e.Sound :=
  List.forall_mem_cons.mpr ⟨trivial, h.built_block.sound⟩

lemma Tree.Built.sound {t : Tree} (h : t.Built) : ∀ e ∈ t.events, e.Sound := by
  cases t with
  | node n => exact Node.Built.sound h
  | function f => exact Function.Built.sound h
  | program p =>
    refine List.forall_mem_cons.mpr ⟨trivial, ?_⟩
    intro e he
    obtain ⟨f, hf, he⟩ := List.mem_flatMap.mp he
    exact (h f hf).sound e he

/-- What has content of its own on paper: a leaf, or a literal. -/
def Event.isContent : Event → Bool
  | .leaf _ | .enter (.data _) => true
  | .enter _ | .leave _ => false

def contents (es : List Event) : List Event :=
  es.filter Event.isContent

lemma contents_append (as bs : List Event) : contents (as ++ bs) = contents as ++ contents bs :=
  List.filter_append as bs

lemma contents_block_events (b : Block) : contents b.events = contents (bodyEvents b.body) := by
  obtain ⟨frame, body⟩ := b
  rw [Block.events, contents, List.filter_cons_of_neg Bool.false_ne_true, ← contents,
    contents_append]
  exact List.append_nil _

/-- A printer, and the calls that it got so far. -/
structure Watched where
  printer : Printer
  calls : List Event

namespace Watched

def called (e : Event) (w : Watched) : Watched :=
  { w with calls := w.calls ++ [e] }

/-- The printer does something by itself. -/
def act (f : Printer → Printer) (w : Watched) : Watched :=
  { w with printer := f w.printer }

mutual

/-- Accepts a node. Where the printer turns away from a container, its call accepts the blocks, or
the nodes in them. -/
def node : Node → Watched → Watched
  | .leaf l => act (·.leaf l) ∘ called (.leaf l)
  | .sealed b s => block b ∘ called (.enter (.sealed ⟨b, s⟩))
  | .data k t c =>
    (if k = .inlineSlice then id else act .closeBlock ∘ insideChild c) ∘
      act (·.literal ⟨k, t, c⟩) ∘ called (.enter (.data ⟨k, t, c⟩))
  | .block b => block b
  | .conditional k t (some f) =>
    act (·.emit k.mnemonic) ∘ block f ∘ block t ∘ called (.enter (.conditional ⟨k, t, some f⟩))
  | .conditional k t none =>
    (match t.frame.branch? with
      | none => act (·.emit k.mnemonic) ∘ block t
      | some encoded =>
        if encoded = k then block t
        else
          act (·.emit k.mnemonic) ∘ act .closeBlock ∘ inside t ∘
            act (·.openBlock Frame.pushRefCont.token)) ∘
      called (.enter (.conditional ⟨k, t, none⟩))
  | .repeatLoop k b =>
    act (·.emit k.mnemonic) ∘ block b ∘ called (.enter (.repeatLoop ⟨k, b⟩))
  | .whileLoop c b p =>
    act (·.emit (whileMnemonic p)) ∘ block b ∘ block c ∘ called (.enter (.whileLoop ⟨c, b, p⟩))
  termination_by structural n => n

def block : Block → Watched → Watched
  | ⟨f, ns⟩ =>
    act .closeBlock ∘ called (.leave ⟨f, ns⟩) ∘ body ns ∘ act (·.openBlock f.token) ∘
      called (.enter (.block ⟨f, ns⟩))
  termination_by structural b => b

/-- Accepts the nodes of a block, but not the block. -/
def inside : Block → Watched → Watched
  | ⟨_, ns⟩ => body ns
  termination_by structural b => b

def insideChild : Option Block → Watched → Watched
  | none => id
  | some b => inside b
  termination_by structural c => c

def body : List Node → Watched → Watched
  | [] => id
  | n :: ns => body ns ∘ node n
  termination_by structural ns => ns

end

def function (f : Function) : Watched → Watched :=
  act .shallower ∘ inside f.block ∘ act (·.functionHead f) ∘ called (.enter (.function f))

/-- The printer as a visitor, with its calls kept. -/
def visitor : Visitor Watched where
  leaf l w := node (.leaf l) w
  enter
    | .program p, w => (act (·.print p.headPieces) (called (.enter (.program p)) w), true)
    | .function f, w => (function f w, false)
    | .block b, w => (act (·.openBlock b.frame.token) (called (.enter (.block b)) w), true)
    | .sealed s, w => (called (.enter (.sealed s)) w, true)
    | .data d, w => (node d.node w, false)
    | .conditional c, w => (node c.node w, false)
    | .repeatLoop l, w => (node l.node w, false)
    | .whileLoop l, w => (node l.node w, false)
  leave b w := act .closeBlock (called (.leave b) w)

mutual

/-- What the calls of the printer accept, they accept with the printer itself. -/
theorem visitor_node : (n : Node) → visitor.node n = node n
  | .leaf _ => rfl
  | .sealed b s => by
    have hwithin : visitor.node (.sealed b s) =
        visitor.block b ∘ called (.enter (.sealed ⟨b, s⟩)) := rfl
    rw [hwithin, visitor_block b, node]
  | .data _ _ _ => rfl
  | .block b => visitor_block b
  | .conditional _ _ _ => rfl
  | .repeatLoop _ _ => rfl
  | .whileLoop _ _ _ => rfl
  termination_by structural n => n

theorem visitor_block : (b : Block) → visitor.block b = block b
  | ⟨f, ns⟩ => by
    have hwithin : visitor.block ⟨f, ns⟩ = act .closeBlock ∘ called (.leave ⟨f, ns⟩) ∘
        visitor.body ns ∘ act (·.openBlock f.token) ∘ called (.enter (.block ⟨f, ns⟩)) := rfl
    rw [hwithin, visitor_body ns, block]
  termination_by structural b => b

theorem visitor_body : (ns : List Node) → visitor.body ns = body ns
  | [] => rfl
  | n :: ns => by rw [Visitor.body, visitor_node n, visitor_body ns, body]
  termination_by structural ns => ns

end

/-- What comes of a walk of the watched printer: the pieces that it prints, and of checked events
those with content, as calls. -/
structure Accounts (f : Watched → Watched) (pieces : List Piece) (events : List Event) : Prop where
  printer : ∀ w, (f w).printer = w.printer.print pieces
  calls : (∀ e ∈ events, e.Sound) → ∀ w,
    contents (f w).calls = contents w.calls ++ contents events

namespace Accounts

variable {f g : Watched → Watched} {ps qs : List Piece} {as bs : List Event}

lemma of_id : Accounts id [] [] where
  printer _ := rfl
  calls _ w := (List.append_nil (contents w.calls)).symm

lemma of_called (e : Event) : Accounts (called e) [] [e] where
  printer _ := rfl
  calls _ w := contents_append w.calls [e]

lemma of_piece (q : Piece) : Accounts (act (·.piece q)) [q] [] where
  printer _ := rfl
  calls _ w := (List.append_nil (contents w.calls)).symm

lemma comp (hf : Accounts f ps as) (hg : Accounts g qs bs) :
    Accounts (g ∘ f) (ps ++ qs) (as ++ bs) where
  printer w := by rw [Function.comp_apply, hg.printer, hf.printer, Printer.print_append]
  calls hsound w := by
    obtain ⟨has, hbs⟩ := List.forall_mem_append.mp hsound
    rw [Function.comp_apply, hg.calls hbs, hf.calls has, contents_append, List.append_assoc]

lemma then_piece (hf : Accounts f ps as) (q : Piece) :
    Accounts (act (·.piece q) ∘ f) (ps ++ [q]) as := by
  have hboth := hf.comp (of_piece q)
  rw [List.append_nil] at hboth
  exact hboth

lemma then_called (hf : Accounts f ps as) (e : Event) :
    Accounts (called e ∘ f) ps (as ++ [e]) := by
  have hboth := hf.comp (of_called e)
  rw [List.append_nil] at hboth
  exact hboth

/-- Other events will do if, where they are checked, they have the same content. -/
lemma congr (h : Accounts f ps as)
    (hbs : (∀ e ∈ bs, e.Sound) → (∀ e ∈ as, e.Sound) ∧ contents as = contents bs) :
    Accounts f ps bs where
  printer := h.printer
  calls hsound w := by
    obtain ⟨has, hcontents⟩ := hbs hsound
    rw [h.calls has, hcontents]

lemma enclosed (header : String) (h : Accounts f ps as) :
    Accounts (act .closeBlock ∘ f ∘ act (·.openBlock header)) (enclosed header ps) as := by
  have hcode := (of_piece (.opening header)).comp h
  exact hcode.then_piece .closing

/-- A literal is printed as one, and if it can hold code, the nodes of the code are accepted. -/
lemma data {d : DataPush} {walk : Watched → Watched}
    (h : Accounts walk (childBodyPieces d.child) (childEvents d.child)) :
    Accounts ((if d.kind = .inlineSlice then id else act .closeBlock ∘ walk) ∘
        act (·.literal d) ∘ called (.enter (.data d)))
      d.node.pieces d.node.events := by
  have hliteral : Accounts (act (·.literal d) ∘ called (.enter (.data d))) [.literal d]
      [.enter (.data d)] := (of_called _).then_piece (.literal d)
  have hpieces : d.node.pieces = .literal d ::
      if d.kind = .inlineSlice then [] else childBodyPieces d.child ++ [.closing] := by
    rw [DataPush.node, Node.pieces]
  have hevents : d.node.events = .enter (.data d) :: childEvents d.child := by
    rw [DataPush.node, Node.events]
  rw [hpieces, hevents]
  by_cases hslice : d.kind = .inlineSlice
  · -- The printer does not look for code in an inline slice. That there is none is known only where
    -- the literal has been checked.
    rw [if_pos hslice, if_pos hslice]
    apply hliteral.congr
    intro hsound
    obtain ⟨hd, -⟩ := List.forall_mem_cons.mp hsound
    have hnone : childEvents d.child = [] := by
      rw [DataPush.Sound.child_eq_none hd hslice, childEvents]
    rw [hnone]
    exact ⟨List.forall_mem_singleton.mpr hd, rfl⟩
  · rw [if_neg hslice, if_neg hslice]
    exact (hliteral.comp h).then_piece .closing

/-- A branch without a second arm accepts its arm, or the nodes in it under another header. -/
lemma one_armed {k : ConditionalKind} {t : Block}
    (hblock : Accounts (block t) t.pieces t.events)
    (hinside : Accounts (inside t) t.bodyPieces t.events) :
    Accounts (node (.conditional k t none)) (Node.conditional k t none).pieces
      (Node.conditional k t none).events := by
  have hcalled := of_called (.enter (.conditional ⟨k, t, none⟩))
  have hevents : (Node.conditional k t none).events =
      [.enter (.conditional ⟨k, t, none⟩)] ++ t.events := by
    rw [Node.events, childEvents, List.append_nil, List.singleton_append]
  rw [node, Node.pieces, hevents]
  cases t.frame.branch? with
  | none => exact (hcalled.comp hblock).then_piece (.text k.mnemonic)
  | some encoded =>
    by_cases he : encoded = k
    · simp only [if_pos he]
      exact hcalled.comp hblock
    · -- The frame belongs to the opposite branch, so it is left out and its nodes are kept.
      simp only [if_neg he]
      have hframed := hinside.enclosed Frame.pushRefCont.token
      exact (hcalled.comp hframed).then_piece (.text k.mnemonic)

mutual

theorem of_node : (n : Node) → Accounts (node n) n.pieces n.events
  | .leaf l => (of_called (.leaf l)).then_piece (.leaf l)
  | .sealed b s => (of_called (.enter (.sealed ⟨b, s⟩))).comp (of_block b)
  | .data k t c => data (d := ⟨k, t, c⟩) (of_insideChild c)
  | .block b => of_block b
  | .conditional k t (some f) =>
    (((of_called (.enter (.conditional ⟨k, t, some f⟩))).comp (of_block t)).comp
      (of_block f)).then_piece (.text k.mnemonic)
  | .conditional _ t none => one_armed (of_block t) (of_inside t)
  | .repeatLoop k b =>
    ((of_called (.enter (.repeatLoop ⟨k, b⟩))).comp (of_block b)).then_piece (.text k.mnemonic)
  | .whileLoop c b p =>
    (((of_called (.enter (.whileLoop ⟨c, b, p⟩))).comp (of_block c)).comp
      (of_block b)).then_piece (.text (whileMnemonic p))
  termination_by structural n => n

theorem of_block : (b : Block) → Accounts (block b) b.pieces b.events
  | ⟨f, ns⟩ =>
    (of_called (.enter (.block ⟨f, ns⟩))).comp
      (((of_body ns).then_called (.leave ⟨f, ns⟩)).enclosed f.token)
  termination_by structural b => b

theorem of_inside : (b : Block) → Accounts (inside b) b.bodyPieces b.events
  | ⟨f, ns⟩ => by
    apply (of_body ns).congr
    intro hsound
    obtain ⟨-, hrest⟩ := List.forall_mem_cons.mp hsound
    exact ⟨(List.forall_mem_append.mp hrest).1, (contents_block_events ⟨f, ns⟩).symm⟩
  termination_by structural b => b

theorem of_insideChild : (c : Option Block) →
    Accounts (insideChild c) (childBodyPieces c) (childEvents c)
  | none => of_id
  | some b => of_inside b
  termination_by structural c => c

theorem of_body : (ns : List Node) → Accounts (body ns) (piecesOf ns) (bodyEvents ns)
  | [] => of_id
  | n :: ns => (of_node n).comp (of_body ns)
  termination_by structural ns => ns

end

lemma of_function (f : Function) : Accounts (function f) f.pieces f.events := by
  have hhead := (of_called (.enter (.function f))).then_piece (.functionHead f)
  exact (hhead.comp (of_inside f.block)).then_piece .functionEnd

lemma of_functions (fs : List Function) :
    Accounts (fun w => fs.foldl (fun w f => visitor.function f w) w) (fs.flatMap Function.pieces)
      (fs.flatMap Function.events) := by
  induction fs with
  | nil => exact of_id
  | cons f fs ih =>
    rw [List.flatMap_cons, List.flatMap_cons]
    exact (of_function f).comp ih

/-- Whatever the watched printer walks through, it prints the pieces and is called for the
contents. -/
lemma of_tree (t : Tree) : Accounts (visitor.tree t) t.pieces t.events := by
  cases t with
  | node n =>
    have hnode : visitor.tree (.node n) = node n := visitor_node n
    rw [hnode]
    exact of_node n
  | function f => exact of_function f
  | program p =>
    have hcalled := of_called (.enter (.program p))
    have hhead : Accounts (act (·.print p.headPieces) ∘ called (.enter (.program p)))
        p.headPieces [.enter (.program p)] := ⟨fun _ => rfl, hcalled.calls⟩
    exact hhead.comp (of_functions p.functions)

end Accounts

end Watched

lemma Visitor.toList_recorder (t : Tree) (met : Array Event) :
    ((recorder fun _ => false).tree t met).toList = met.toList ++ t.events := by
  have hcomposes : (recorder fun _ => false).Composes
      fun es walk => ∀ met, (walk met).toList = met.toList ++ es :=
    { nil := fun met => (List.append_nil met.toList).symm
      append := fun ha hb met => by rw [Function.comp_apply, hb, ha, List.append_assoc]
      leaf := fun l met => Array.toList_push
      enter := fun {c walk} _ h met => by
        have hwithin : (recorder fun _ => false).within c walk met = walk (met.push (.enter c)) :=
          rfl
        rw [hwithin, h, Array.toList_push, List.append_assoc, List.singleton_append]
      block := fun {b walk} h met => by
        have hwithin : ((recorder fun _ => false).leave b ∘
            (recorder fun _ => false).within (.block b) walk) met =
              (walk (met.push (.enter (.block b)))).push (.leave b) := rfl
        rw [hwithin, Array.toList_push, h, Array.toList_push, List.append_assoc, List.append_assoc,
          List.singleton_append] }
  exact hcomposes.of_tree t met

namespace Watched

/-- On its walk through a tree that the factories build, the printer is called for each leaf and
each literal as often as a visitor that goes everywhere meets it, and in the same order, whatever it
printed before. Watched or not, it prints the same. -/
theorem contents_calls_eq_recorded (t : Tree) (ht : t.Built) (w : Watched) :
    contents (visitor.tree t w).calls = contents w.calls ++
      contents ((Visitor.recorder fun _ => false).tree t #[]).toList ∧
    (visitor.tree t w).printer = Printer.visitor.tree t w.printer := by
  constructor
  · rw [Visitor.toList_recorder, (Accounts.of_tree t).calls ht.sound]
    rfl
  · rw [(Accounts.of_tree t).printer, Printer.tree_visitor]

/-- A cell in a literal, and an arm in the frame of the opposite branch. -/
def nestedCell : DataPush := ⟨.nestedCell, "ab", none⟩

def codeLiteral : DataPush :=
  ⟨.reference, "", some ⟨.pushCont, [nestedCell.node, .leaf (.stack .dup2)]⟩⟩

def staleBranch : Conditional :=
  ⟨.jumpIfFalse, ⟨.ifJmpRef, [.leaf (.stack .rot)]⟩, none⟩

def bypassedProgram : Program :=
  ⟨["version 1"], [⟨"main", .internalMessage, ⟨1, 0⟩,
    ⟨.pushCont, [.leaf (.location ⟨"main.fc", 7⟩), codeLiteral.node, staleBranch.node]⟩⟩]⟩

lemma built_codeLiteral : codeLiteral.Built := by
  have hcell : nestedCell.Built := @DataPush.Built.cell "ab" none _ (by simp) rfl
  have hcode : Block.Built ⟨.pushCont, [nestedCell.node, .leaf (.stack .dup2)]⟩ := by
    apply Block.Built.block
    simp only [List.forall_mem_cons]
    exact ⟨.data hcell, .leaf .dup2, by simp⟩
  exact @DataPush.Built.dataPush .reference "" (some _) _ (by simpa using hcode) rfl

lemma built_staleBranch : staleBranch.Built := by
  have harm : Block.Built ⟨.ifJmpRef, [.leaf (.stack .rot)]⟩ := by
    apply Block.Built.block
    exact List.forall_mem_singleton.mpr (.leaf .rot)
  have hmade : Conditional.Built ⟨.jumpIfTrue, ⟨.ifJmpRef, [.leaf (.stack .rot)]⟩, none⟩ :=
    @Conditional.Built.conditional .jumpIfTrue _ none _ harm (by simp) rfl
  exact hmade.invert

lemma built_bypassedProgram : bypassedProgram.Built := by
  intro f hf
  obtain rfl := List.mem_singleton.mp hf
  refine @Function.Built.function "main" _ _ _ _ (.block .pushCont ?_) rfl
  simp only [List.forall_mem_cons]
  exact ⟨.leaf (.location _), .data built_codeLiteral, .conditional built_staleBranch, by simp⟩

theorem contents_calls_bypassedProgram :
    (Tree.program bypassedProgram).Built ∧
      contents (visitor.tree (.program bypassedProgram) ⟨.start Style.standard, []⟩).calls =
        [.leaf (.location ⟨"main.fc", 7⟩), .enter (.data codeLiteral), .enter (.data nestedCell),
          .leaf (.stack .dup2), .leaf (.stack .rot)] ∧
      (visitor.tree (.program bypassedProgram) ⟨.start Style.standard, []⟩).printer =
        Printer.visitor.tree (.program bypassedProgram) (.start Style.standard) := by
  obtain ⟨hcalls, hprinter⟩ := contents_calls_eq_recorded (.program bypassedProgram)
    built_bypassedProgram ⟨.start Style.standard, []⟩
  exact ⟨built_bypassedProgram, hcalls.trans rfl, hprinter⟩

end Watched

end TvmAssembly
