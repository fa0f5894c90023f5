import Stache.Proofs.Spec.Holes
import Stache.Proofs.Spec.KnownHelpers
import Stache.Proofs.Template.Grammar

/-!
# The contents of a template

The text of a template goes through three passes: it is cut into segments, the segments are nested, and
the tree is written as code. No pass loses a text or writes it twice.

* `Node`, `bodyNodes` -- the nodes of a tree, from its front to its end; `Part.node?` is the node that a
  part of a template becomes;
* `perm_bodyNodes` -- **a tree has the nodes of its parts**, each as often;
* `elseInInverted`, `bodyNodes_eq` -- in the same order, unless an inverted block has an else;
* `own_linesOf` -- a spec tree asks about the nodes of the tree: the texts that are not empty, and the partials;
* `chunksOf_nodes` -- the chunks among that are the texts;
* `contents_of_compilation` -- from the source to the code.
-/

namespace Stache

/-! ## 1. Nodes -/

/-- What a statement is, apart from the statements inside. -/
inductive Node where
  /-- Static content. -/
  | content (text : String)
  /-- A mustache, escaped or not. -/
  | mustache (call : Call) (escaped : Bool)
  /-- A block, which may be chained. -/
  | block (call : Call)
  /-- A partial, with a body or without. -/
  | partialTemplate (name : Expr) (context : Option Expr) (hash : List (String × Expr))

/-- The text of a node, if it is content. -/
def Node.text? : Node → Option String
  | .content text => some text
  | _ => none

mutual

/-- The nodes of a statement: a block comes before its sections, the section for true before the other
    one. -/
def Statement.nodes : Statement → List Node
  | .content text => [.content text]
  | .mustache call escaped => [.mustache call escaped]
  | .block call main inverse => .block call :: (sectionNodes main ++ sectionNodes inverse)
  | .partialTemplate name context hash fallback =>
    .partialTemplate name context hash :: sectionNodes fallback

/-- The nodes of statements. -/
def bodyNodes : List Statement → List Node
  | [] => []
  | statement :: statements => statement.nodes ++ bodyNodes statements

/-- The nodes of a section. -/
def sectionNodes : Option (ProgramOf Statement) → List Node
  | none => []
  | some ⟨body, _⟩ => bodyNodes body

end

/-- The node that a part becomes. Comments, plain elses and closing tags become none. -/
def Part.node? : Part → Option Node
  | .content text => some (.content text)
  | .mustache call escaped => some (.mustache call escaped)
  | .block _ call _ | .chain call => some (.block call)
  | .partialTemplate head | .partialBlock head =>
    some (.partialTemplate head.name head.context head.hash)
  | .comment | .otherwise | .close _ => none

/-- The nodes of parts, in their order. -/
def partNodes (parts : List Part) : List Node :=
  parts.filterMap Part.node?

theorem filterMap_cons_toList {α β : Type} (f : α → Option β) (a : α) (rest : List α) :
    (a :: rest).filterMap f = (f a).toList ++ rest.filterMap f := by
  rw [List.filterMap_cons]
  cases f a <;> rfl

theorem partNodes_append (parts more : List Part) :
    partNodes (parts ++ more) = partNodes parts ++ partNodes more :=
  List.filterMap_append

theorem partNodes_cons (part : Part) (parts : List Part) :
    partNodes (part :: parts) = part.node?.toList ++ partNodes parts :=
  filterMap_cons_toList ..

theorem partNodes_close (name : String) : partNodes [.close name] = [] := rfl

theorem partNodes_otherwise (parts : List Part) : partNodes (.otherwise :: parts) = partNodes parts :=
  rfl

/-- A chained section has the node of its call, and those of its own sections. -/
theorem sectionNodes_chain (call : Call) (body : List Statement) (inverse : Option Program) :
    sectionNodes (some ⟨[.block call (some ⟨body, []⟩) inverse], []⟩) =
      .block call :: (bodyNodes body ++ sectionNodes inverse) :=
  List.append_nil _

/-! ## 2. A tree has the nodes of its parts -/

theorem nodes_blockStatement (inverted : Bool) (call : Call) (params : List String)
    (main : List Statement) (inverse : Option Program) :
    (blockStatement inverted call params main inverse).nodes.Perm
      (.block call :: (bodyNodes main ++ sectionNodes inverse)) := by
  cases inverted with
  | false => exact .refl _
  | true => exact List.perm_append_comm.cons _

mutual

/-- **The nodes of a body are those of its parts.** -/
theorem perm_bodyNodes {parts : List Part} {body : List Statement} (h : IsBody parts body) :
    (bodyNodes body).Perm (partNodes parts) := by
  cases h with
  | nil => exact .nil
  | content text rest =>
    have hrest := perm_bodyNodes rest
    exact hrest.cons _
  | comment rest =>
    have hrest := perm_bodyNodes rest
    exact hrest
  | mustache call escaped rest =>
    have hrest := perm_bodyNodes rest
    exact hrest.cons _
  | partialTemplate head rest =>
    have hrest := perm_bodyNodes rest
    exact hrest.cons _
  | partialBlock head nested rest =>
    have hboth := (perm_bodyNodes nested).append (perm_bodyNodes rest)
    rw [List.cons_append, partNodes_cons, partNodes_append]
    exact hboth.cons _
  | block inverted call params nested rest =>
    have hboth := (perm_sectionNodes nested).append (perm_bodyNodes rest)
    rw [List.cons_append, partNodes_cons, partNodes_append]
    exact ((nodes_blockStatement inverted call params _ _).append_right _).trans (hboth.cons _)
termination_by parts.length

theorem perm_sectionNodes {name : String} {parts : List Part} {main : List Statement}
    {inverse : Option Program} (h : IsSections name parts main inverse) :
    (bodyNodes main ++ sectionNodes inverse).Perm (partNodes parts) := by
  cases h with
  | closed first =>
    rw [partNodes_append]
    exact (perm_bodyNodes first).append .nil
  | otherwise first second =>
    have hboth := (perm_bodyNodes first).append (perm_bodyNodes second)
    rw [partNodes_append, partNodes_append, partNodes_close, partNodes_otherwise, List.append_nil]
    exact hboth
  | chain call first chained =>
    have hsections := (perm_sectionNodes chained).cons (.block call)
    rw [partNodes_append, sectionNodes_chain]
    exact (perm_bodyNodes first).append hsections
termination_by parts.length

end

/-! ## 3. Their order -/

/-- An else stands directly in an inverted block. The blocks that are open around the parts are given, the
    innermost first, each with whether it is inverted. -/
def elseInInverted (opened : List Bool) : List Part → Bool
  | [] => false
  | .block inverted _ _ :: parts => elseInInverted (inverted :: opened) parts
  | .partialBlock _ :: parts => elseInInverted (false :: opened) parts
  | .close _ :: parts => elseInInverted opened.tail parts
  | .chain _ :: parts | .otherwise :: parts => opened.headD false || elseInInverted opened parts
  | _ :: parts => elseInInverted opened parts

mutual

/-- **The nodes of a body are in the order of its parts** if no inverted block has an else. What is around
    the body is read on behind it. -/
theorem bodyNodes_eq {parts : List Part} {body : List Statement} (h : IsBody parts body)
    (opened : List Bool) (rest : List Part) (hno : elseInInverted opened (parts ++ rest) = false) :
    bodyNodes body = partNodes parts ∧ elseInInverted opened rest = false := by
  cases h with
  | nil => exact ⟨rfl, hno⟩
  | content text more =>
    obtain ⟨hmore, hrest⟩ := bodyNodes_eq more opened rest hno
    refine ⟨?_, hrest⟩
    rw [partNodes_cons, ← hmore]
    rfl
  | comment more =>
    obtain ⟨hmore, hrest⟩ := bodyNodes_eq more opened rest hno
    exact ⟨hmore, hrest⟩
  | mustache call escaped more =>
    obtain ⟨hmore, hrest⟩ := bodyNodes_eq more opened rest hno
    refine ⟨?_, hrest⟩
    rw [partNodes_cons, ← hmore]
    rfl
  | partialTemplate head more =>
    obtain ⟨hmore, hrest⟩ := bodyNodes_eq more opened rest hno
    refine ⟨?_, hrest⟩
    rw [partNodes_cons, ← hmore]
    rfl
  | partialBlock head nested more =>
    rw [List.cons_append, List.cons_append, List.append_assoc] at hno
    obtain ⟨hnested, hno⟩ := bodyNodes_eq nested (false :: opened) _ hno
    obtain ⟨hmore, hrest⟩ := bodyNodes_eq more opened rest hno
    refine ⟨?_, hrest⟩
    rw [List.cons_append, partNodes_cons, partNodes_append, partNodes_cons, ← hnested, ← hmore]
    rfl
  | block inverted call params nested more =>
    rw [List.cons_append, List.cons_append, List.append_assoc] at hno
    obtain ⟨hnested, hplain, hno⟩ := sectionNodes_eq nested inverted opened _ hno
    obtain ⟨hmore, hrest⟩ := bodyNodes_eq more opened rest hno
    refine ⟨?_, hrest⟩
    rw [List.cons_append, partNodes_cons, partNodes_append, ← hnested, ← hmore]
    cases inverted with
    | false => rfl
    | true =>
      cases hplain rfl
      rw [sectionNodes, List.append_nil]
      rfl
termination_by parts.length

/-- So are the nodes of sections, and an inverted block has one section. -/
theorem sectionNodes_eq {name : String} {parts : List Part} {main : List Statement}
    {inverse : Option Program} (h : IsSections name parts main inverse) (inverted : Bool)
    (opened : List Bool) (rest : List Part)
    (hno : elseInInverted (inverted :: opened) (parts ++ rest) = false) :
    bodyNodes main ++ sectionNodes inverse = partNodes parts ∧ (inverted = true → inverse = none) ∧
      elseInInverted opened rest = false := by
  cases h with
  | closed first =>
    rw [List.append_assoc] at hno
    obtain ⟨hmain, hrest⟩ := bodyNodes_eq first (inverted :: opened) _ hno
    rw [partNodes_append, ← hmain]
    exact ⟨rfl, fun _ => rfl, hrest⟩
  | otherwise first second =>
    rw [List.append_assoc, List.append_assoc] at hno
    obtain ⟨hmain, hno⟩ := bodyNodes_eq first (inverted :: opened) _ hno
    obtain ⟨hplain, hno⟩ := Bool.or_eq_false_iff.mp hno
    obtain ⟨hbody, hrest⟩ := bodyNodes_eq second (inverted :: opened) _ hno
    rw [partNodes_append, partNodes_append, partNodes_close, partNodes_otherwise, List.append_nil, ← hmain,
      ← hbody]
    exact ⟨rfl, fun hinverted => absurd hinverted (Bool.not_eq_true _ ▸ hplain), hrest⟩
  | chain call first chained =>
    rw [List.append_assoc] at hno
    obtain ⟨hmain, hno⟩ := bodyNodes_eq first (inverted :: opened) _ hno
    obtain ⟨hplain, hno⟩ := Bool.or_eq_false_iff.mp hno
    obtain ⟨hsections, _, hrest⟩ := sectionNodes_eq chained inverted opened rest hno
    rw [partNodes_append, partNodes_cons, sectionNodes_chain, ← hmain, ← hsections]
    exact ⟨rfl, fun hinverted => absurd hinverted (Bool.not_eq_true _ ▸ hplain), hrest⟩
termination_by parts.length

end

/-! ## 4. Texts -/

/-- The texts of the nodes that are content. -/
def nodeTexts (nodes : List Node) : List String :=
  nodes.filterMap Node.text?

/-- The text of a segment, if it is content. -/
def Segment.text? : Segment → Option String
  | .content text => some text
  | .tag _ => none

/-- The contents of a template, in their order. -/
def contentsOf (segments : List Segment) : List String :=
  segments.filterMap Segment.text?

/-- A tag is not content. -/
theorem Tag.text?_part {tag : Tag} {part : Part} (h : tag.part = .ok part) :
    part.node?.bind Node.text? = none := by
  unfold Tag.part at h
  split at h
  · cases h
    rfl
  · split at h
    · split at h
      · cases h
        rfl
      · obtain ⟨_, _, rfl⟩ := map_eq_ok.mp h
        rfl
    · obtain ⟨_, _, rfl⟩ := map_eq_ok.mp h
      rfl
  · obtain ⟨_, _, rfl⟩ := map_eq_ok.mp h
    rfl
  · obtain ⟨_, _, rfl⟩ := map_eq_ok.mp h
    rfl
  · obtain ⟨_, _, rfl⟩ := map_eq_ok.mp h
    rfl
  · obtain ⟨_, _, rfl⟩ := map_eq_ok.mp h
    rfl
  · split at h
    · cases h
      rfl
    · obtain ⟨_, _, h⟩ := bind_eq_ok.mp h
      obtain ⟨_, _, h⟩ := bind_eq_ok.mp h
      cases h
      rfl

/-- What is observed of segments is observed of the nodes of their parts. -/
theorem Reads.filterMap_eq {α : Type} {f : Segment → Option α} {g : Node → Option α}
    (same : ∀ segment part, segment.part = .ok part → f segment = part.node?.bind g)
    {segments rest : List Segment} {parts : List Part} (h : Reads segments parts rest) :
    segments.filterMap f = (partNodes parts).filterMap g ++ rest.filterMap f := by
  induction h with
  | nil => rfl
  | @cons segment part segments rest parts first _ ih =>
    have hnode : part.node?.toList.filterMap g = (f segment).toList := by
      rw [same segment part first]
      cases part.node? with
      | none => rfl
      | some node => exact (filterMap_cons_toList g node []).trans (List.append_nil _)
    rw [partNodes_cons, List.filterMap_append, List.append_assoc, ← ih, hnode]
    exact filterMap_cons_toList ..

theorem Segment.text?_eq {segment : Segment} {part : Part} (h : segment.part = .ok part) :
    segment.text? = part.node?.bind Node.text? := by
  cases segment with
  | content text =>
    cases h
    rfl
  | tag tag =>
    change tag.part.mapError tag.error = .ok part at h
    cases hread : tag.part with
    | error =>
      rw [hread] at h
      cases h
    | ok read =>
      rw [hread] at h
      cases h
      exact (Tag.text?_part hread).symm

/-! ## 5. What nodes are asked about -/

/-- The name of a partial, unless it is computed. -/
def Expr.partialName? : Expr → Option String
  | .sub _ => none
  | name => some name.spelling

/-- What is asked about a node, apart from its calls and values: a text that is not empty, or the name of a
    partial. -/
def Node.reference? : Node → Option Reference
  | .content text => if text.isEmpty then none else some (.chunk text)
  | .partialTemplate name _ _ => name.partialName?.map (.symbol .partialTemplate .partials)
  | .mustache _ _ | .block _ => none

/-- Nodes are asked about it, and values are not: it is static content or a partial. -/
def Reference.isOwn : Reference → Bool
  | .chunk _ | .symbol .partialTemplate _ _ => true
  | _ => false

/-- What no other references show is shown by those of nodes. -/
theorem filterMap_own {α : Type} (f : Reference → Option α)
    (others : ∀ reference, reference.isOwn = false → f reference = none) (references : List Reference) :
    (references.filter Reference.isOwn).filterMap f = references.filterMap f := by
  rw [List.filterMap_filter]
  refine congrArg (List.filterMap · references) (funext fun reference => ?_)
  cases hown : reference.isOwn with
  | true => rfl
  | false => exact (others reference hown).symm

namespace Outline

/-- What an outline asks about its nodes. -/
def own (o : Outline) : List Reference :=
  o.references.filter Reference.isOwn

/-- What ends well asks about the nodes of its two parts. -/
theorem own_append {a b : Outline} (h : (a ++ b).fault = none) : (a ++ b).own = a.own ++ b.own := by
  obtain ⟨_, _, hreferences⟩ := of_fault_append h
  unfold own
  rw [hreferences]
  exact List.filter_append ..

theorem own_eq_nil {o : Outline} : o.own = [] ↔ ∀ reference ∈ o.references, ¬ reference.isOwn = true :=
  List.filter_eq_nil_iff

/-- Where two parts ask about no node, the whole asks about none. -/
theorem own_append_eq_nil {a b : Outline} (ha : a.own = []) (hb : b.own = []) : (a ++ b).own = [] := by
  rw [own_eq_nil] at *
  intro reference hm
  exact (mem_references_append hm).elim (ha reference) (hb reference)

end Outline

variable {hints : Hints}

mutual

/-- Values ask about no node. -/
theorem own_value (scope : Scope) : ∀ e : Expr, (e.value hints scope).outline.own = []
  | .lookup l => by
    refine Outline.own_eq_nil.mpr fun reference hm => ?_
    obtain ⟨_, _, _, rfl, rfl | rfl⟩ := mem_links_chain hm <;> exact Bool.false_ne_true
  | .str _ => rfl
  | .num _ => rfl
  | .bool _ => rfl
  | .null => rfl
  | .undefined => rfl
  | .sub call => own_invocation scope true call

theorem own_invocation (scope : Scope) (isSub : Bool) : ∀ call : CallOf Expr,
    (InvocationOf.outline (Call.invocation hints scope isSub call)).own = []
  | ⟨callee, params, hash, position⟩ => by
    have harguments : (Call.argumentsOutline hints scope ⟨callee, params, hash, position⟩).own = [] :=
      Outline.own_append_eq_nil (own_params scope params) (own_hash scope hash)
    rw [outline_invocation]
    split
    · exact Outline.own_append_eq_nil rfl harguments
    · rfl
    · split
      · exact Outline.own_append_eq_nil (own_value scope callee) harguments
      · exact own_value scope callee
    · rfl

theorem own_params (scope : Scope) : ∀ params : List Expr,
    (paramsOutline (paramValues hints scope params)).own = []
  | [] => rfl
  | param :: params =>
    Outline.own_append_eq_nil (own_value scope param) (own_params scope params)

theorem own_hash (scope : Scope) : ∀ hash : List (String × Expr),
    (hashOutline (hashValues hints scope hash)).own = []
  | [] => rfl
  | (_, value) :: hash =>
    Outline.own_append_eq_nil (own_value scope value) (own_hash scope hash)

end

/-- The name of a partial is asked about, unless it is computed. -/
theorem own_name (scope : Scope) (context : Option Expr) (hash : List (String × Expr)) : ∀ name : Expr,
    (partialNameOf hints scope name).outline.own = (Node.partialTemplate name context hash).reference?.toList
  | .sub call => own_invocation scope true call
  | .lookup _ => rfl
  | .str _ => rfl
  | .num _ => rfl
  | .bool _ => rfl
  | .null => rfl
  | .undefined => rfl

theorem own_context (scope : Scope) : ∀ context : Option Expr,
    (contextOutline (context.map fun e => e.value hints scope)).own = []
  | none => rfl
  | some e => own_value scope e

theorem linesOutline_one (line : LineOf Reference) : linesOutline (some line).toList = line.outline :=
  Outline.append_nothing _

mutual

/-- **A line asks about the nodes of its statement.** -/
theorem own_line (scope : Scope) : ∀ s : Statement,
    (linesOutline (s.line? hints scope).toList).fault = none →
    (linesOutline (s.line? hints scope).toList).own = s.nodes.filterMap Node.reference?
  | .content text, _ => by
    rw [Statement.nodes, filterMap_cons_toList, Node.reference?, Statement.line?, chunkLine?]
    split <;> rfl
  | .mustache call true, _ => Outline.own_append_eq_nil (own_invocation scope false call) rfl
  | .mustache call false, _ => Outline.own_append_eq_nil (own_invocation scope false call) rfl
  | .block call main inverse, hf => by
    rw [Statement.line?, linesOutline_one, LineOf.outline] at hf ⊢
    obtain ⟨hmain, hothers, _⟩ := Outline.of_fault_append hf
    obtain ⟨hinverse, _, _⟩ := Outline.of_fault_append hothers
    have hnodes : (Statement.block call main inverse).nodes.filterMap Node.reference? =
        (sectionNodes main).filterMap Node.reference? ++ (sectionNodes inverse).filterMap Node.reference? :=
      List.filterMap_append
    rw [Outline.own_append hf, Outline.own_append hothers, own_section scope main hmain,
      own_section scope inverse hinverse, own_invocation, List.append_nil, hnodes]
  | .partialTemplate name context hash fallback, hf => by
    rw [Statement.line?, linesOutline_one, LineOf.outline] at hf ⊢
    obtain ⟨_, hcontext, _⟩ := Outline.of_fault_append hf
    obtain ⟨_, hhash, _⟩ := Outline.of_fault_append hcontext
    obtain ⟨_, hfallback, _⟩ := Outline.of_fault_append hhash
    rw [Outline.own_append hf, Outline.own_append hcontext, Outline.own_append hhash, own_context, own_hash,
      own_section scope fallback hfallback, own_name scope context hash name, Statement.nodes,
      filterMap_cons_toList, List.nil_append, List.nil_append]

theorem own_linesOf (scope : Scope) : ∀ body : List Statement,
    (linesOutline (linesOf hints scope body)).fault = none →
    (linesOutline (linesOf hints scope body)).own = (bodyNodes body).filterMap Node.reference?
  | [], _ => rfl
  | s :: body, hf => by
    rw [linesOf, linesOutline_append] at hf ⊢
    obtain ⟨hfirst, hrest, _⟩ := Outline.of_fault_append hf
    rw [Outline.own_append hf, own_line scope s hfirst, own_linesOf scope body hrest, bodyNodes,
      List.filterMap_append]

theorem own_section (scope : Scope) : ∀ body : Option (ProgramOf Statement),
    (sectionOutline (sectionBody? hints scope body)).fault = none →
    (sectionOutline (sectionBody? hints scope body)).own = (sectionNodes body).filterMap Node.reference?
  | none, _ => rfl
  | some ⟨body, params⟩, hf => own_linesOf (params :: scope) body hf

end

/-! ## 6. Chunks -/

/-- The text of a reference, if it is static content. -/
def Reference.chunk? : Reference → Option String
  | .chunk text => some text
  | _ => none

/-- The static content among references, in their order. -/
def chunksOf (references : List Reference) : List String :=
  references.filterMap Reference.chunk?

/-- The texts that are not empty. -/
def written (texts : List String) : List String :=
  texts.filter (!·.isEmpty)

/-- Static content is asked about for nodes only. -/
theorem chunksOf_own (references : List Reference) :
    chunksOf (references.filter Reference.isOwn) = chunksOf references :=
  filterMap_own Reference.chunk? (fun reference hown => by
    rcases reference with ⟨_ | _ | _ | _, base, name⟩ | value | text <;> first | rfl | cases hown) references

/-- **The chunks of nodes are their texts**, without the empty ones. -/
theorem chunksOf_nodes (nodes : List Node) :
    chunksOf (nodes.filterMap Node.reference?) = written (nodeTexts nodes) := by
  unfold chunksOf written nodeTexts
  rw [List.filterMap_filterMap, List.filter_filterMap]
  refine congrArg (List.filterMap · nodes) (funext fun node => ?_)
  cases node with
  | content text =>
    rw [Node.reference?, Node.text?]
    cases hempty : text.isEmpty <;> simp [Reference.chunk?, Option.filter, hempty]
  | partialTemplate name context hash => cases name <;> rfl
  | mustache | block => rfl

/-! ## 7. From the source to the code -/

/-- What is read from a source has the nodes of the parts of the source. -/
theorem nodes_parse {source : String} {program : Program} (h : Program.parse source = .ok program) :
    ∃ segments parts, scan source = .ok segments ∧ segments.mapM Segment.part = .ok parts ∧
      contentsOf segments = nodeTexts (partNodes parts) ∧
      (bodyNodes program.body).Perm (partNodes parts) ∧
      (elseInInverted [] parts = false → bodyNodes program.body = partNodes parts) := by
  obtain ⟨segments, hscan, h⟩ := bind_eq_ok.mp h
  obtain ⟨parts, hparts, hbody, _⟩ := derives_of_ofSegments h
  refine ⟨segments, parts, hscan, hparts, ?_, perm_bodyNodes hbody, fun hno => ?_⟩
  · exact ((Reads.iff_mapM.mpr hparts).filterMap_eq fun _ _ => Segment.text?_eq).trans (List.append_nil _)
  · refine (bodyNodes_eq hbody [] [] ?_).1
    rwa [List.append_nil]

/-- **What is asked about the nodes of an accepted template is read off its tree.** -/
theorem own_compilation {σ : Type} {hints : Hints} {source : String} {program : Program}
    (hparse : Program.parse source = .ok program) {policy : Reference → σ → Option String × σ} {state : σ}
    {code : String} (h : ((compilation hints source).run policy state).1 = .ok code) :
    ((compilation hints source).asked policy state).filter Reference.isOwn =
      (bodyNodes program.body).filterMap Node.reference? := by
  have hasks := asks_compilation hints source
  have hfault := hasks.fault_eq_none h
  have houtline : compilationOutline hints source = linesOutline (linesOf hints [] program.body) := by
    rw [compilationOutline, hparse]
    rfl
  rw [houtline] at hfault
  rw [hasks.asked_eq, houtline]
  exact own_linesOf [] program.body hfault

/-- A template that is accepted has a tree. -/
theorem exists_parse {σ : Type} {hints : Hints} {source : String}
    {policy : Reference → σ → Option String × σ} {state : σ} {code : String}
    (h : ((compilation hints source).run policy state).1 = .ok code) :
    ∃ program, Program.parse source = .ok program := by
  cases hparse : Program.parse source with
  | error error =>
    rw [compilation, hparse] at h
    cases h
  | ok program => exact ⟨program, rfl⟩

/-- **Text is neither lost nor duplicated.** The tree of a template holds every content of its segments
    once, and one node for every tag but comments, plain elses and closing tags. Whoever answers, an
    accepted template is asked about every content once that is not empty, and in the order of the source
    if no inverted block has an else. -/
theorem contents_of_compilation {σ : Type} (hints : Hints) (source : String)
    (policy : Reference → σ → Option String × σ) (state : σ) :
    (∀ program, Program.parse source = .ok program →
      ∃ segments parts, scan source = .ok segments ∧ segments.mapM Segment.part = .ok parts ∧
        (nodeTexts (bodyNodes program.body)).Perm (contentsOf segments) ∧
        (bodyNodes program.body).Perm (partNodes parts)) ∧
    (∀ code, ((compilation hints source).run policy state).1 = .ok code →
      ∃ segments parts, scan source = .ok segments ∧ segments.mapM Segment.part = .ok parts ∧
        (chunksOf ((compilation hints source).asked policy state)).Perm (written (contentsOf segments)) ∧
        (elseInInverted [] parts = false →
          chunksOf ((compilation hints source).asked policy state) = written (contentsOf segments))) := by
  constructor
  · intro program hparse
    obtain ⟨segments, parts, hscan, hparts, hcontents, hperm, _⟩ := nodes_parse hparse
    refine ⟨segments, parts, hscan, hparts, ?_, hperm⟩
    rw [hcontents]
    exact hperm.filterMap _
  · intro code h
    obtain ⟨program, hparse⟩ := exists_parse h
    obtain ⟨segments, parts, hscan, hparts, hcontents, hperm, horder⟩ := nodes_parse hparse
    rw [← chunksOf_own, own_compilation hparse h, chunksOf_nodes]
    refine ⟨segments, parts, hscan, hparts, ?_, fun hno => ?_⟩
    · rw [hcontents]
      exact (hperm.filterMap _).filter _
    · rw [hcontents, horder hno]

/-- Text before an inverted block, inside, and behind it. -/
def invertedSource : String := "x\x7b\x7b^b\x7d\x7dy\x7b\x7b/b\x7d\x7dz"

def invertedSegments : List Segment :=
  [.content "x", .tag ⟨.inverse, [.id "b"], ⟨1, 2⟩⟩, .content "y", .tag ⟨.close, [.id "b"], ⟨1, 9⟩⟩,
    .content "z"]

def invertedCall : Call :=
  ⟨.lookup (.ofNames false 0 ["b"] "b"), [], [], ⟨1, 2⟩⟩

theorem scan_inverted : scan invertedSource = .ok invertedSegments := by
  have tokens : Token.tokenize ['b'] = .ok [.id "b"] := Token.tokenize_word (by decide)
  have pieces : pieces invertedSource.toList =
      [.text ['x'], .tag ⟨.inverse, false, false, ['b']⟩ ⟨1, 2⟩, .text ['y'],
        .tag ⟨.close, false, false, ['b']⟩ ⟨1, 9⟩, .text ['z']] := by decide +kernel
  rw [scan, pieces]
  simp only [Segment.ofPieces, Segment.readTag, tokens]
  rfl

theorem ofTokens_inverted : Call.ofTokens ⟨1, 2⟩ [.id "b"] = .ok invertedCall := by
  rw [Call.ofTokens, readCall, if_neg (List.cons_ne_nil _ _), readExpr]
  show (do
    let arguments ← readArguments ⟨1, 2⟩ false []
    _) >>= _ = _
  rw [readArguments]
  rfl

theorem parts_inverted : invertedSegments.mapM Segment.part =
    .ok [.content "x", .block true invertedCall [], .content "y", .close "b", .content "z"] := by
  have opened : (Segment.tag ⟨.inverse, [.id "b"], ⟨1, 2⟩⟩).part = .ok (.block true invertedCall []) := by
    show ((do
      let call ← Call.ofTokens ⟨1, 2⟩ [.id "b"]
      _) : Except Fault Part).mapError _ = _
    rw [ofTokens_inverted]
    rfl
  simp only [invertedSegments, List.mapM_cons, List.mapM_nil, opened]
  rfl

theorem parse_inverted : Program.parse invertedSource =
    .ok ⟨[.content "x", .block invertedCall none (some ⟨[.content "y"], []⟩), .content "z"], []⟩ := by
  rw [Program.parse, scan_inverted]
  exact Derives.ofSegments ⟨_, parts_inverted,
    .content _ (.block true _ [] (.closed (.content _ .nil)) (.content _ .nil)), rfl⟩

theorem outline_inverted : (compilationOutline ⟨false, ∅⟩ invertedSource).fault = none := by
  rw [compilationOutline, parse_inverted]
  rfl

/-- The text of an inverted block without an else stays between the others. -/
theorem contents_inverted :
    chunksOf ((compilation ⟨false, ∅⟩ invertedSource).asked (fun _ state => (none, state)) ()) =
      ["x", "y", "z"] := by
  have hend := (asks_compilation ⟨false, ∅⟩ invertedSource).run_eq (fun _ state => (none, state)) ()
  rw [outline_inverted] at hend
  obtain ⟨code, hcode⟩ := hend
  obtain ⟨segments, parts, hscan, hparts, _, horder⟩ :=
    (contents_of_compilation ⟨false, ∅⟩ invertedSource (fun _ state => (none, state)) ()).2 code hcode
  cases scan_inverted.symm.trans hscan
  cases parts_inverted.symm.trans hparts
  exact horder rfl

end Stache
