import Stache.Proofs.Spec.Sites
import Stache.Proofs.Template.Grammar
import Stache.Proofs.Template.Numbers
import Stache.Proofs.Template.Places

/-!
# Where a template is at fault

A template is rejected by the scanner, by the readers of tags and blocks, or when its calls are decided. All of
them point at a tag: the position of an error is handed on from the pieces of the source text.

* `Located` -- what a reader comes to: an error at one of some positions, or a result with a property;
* `placed_readCall`, `Tag.placed_part` -- the calls in a tag are those of its position;
* `located_bodyOf` -- so are the errors and the calls of bodies and sections;
* `fault_relation` -- a call that is refused is refused at its position;
* `fault_opened` -- **whoever answers, a template that is rejected is rejected at the braces of a tag**.
-/

namespace Stache

/-! ## 1. Errors at positions -/

variable {P : Position → Prop}

/-- The error is at one of the positions, or the result has the property. -/
def Located {α : Type} (P : Position → Prop) (Q : α → Prop) : Except SyntaxError α → Prop
  | .ok a => Q a
  | .error error => P error.position

namespace Located

variable {α β : Type} {Q : α → Prop} {R : β → Prop}

/-- What reads on may use what was read. -/
theorem bind {x : Except SyntaxError α} {f : α → Except SyntaxError β} (h : Located P Q x)
    (hf : ∀ a, x = .ok a → Q a → Located P R (f a)) : Located P R (x >>= f) := by
  cases x with
  | error error => exact h
  | ok a => exact hf a rfl h

theorem map {x : Except SyntaxError α} {f : α → β} (h : Located P Q x) (hf : ∀ a, Q a → R (f a)) :
    Located P R (x.map f) := by
  cases x with
  | error error => exact h
  | ok a => exact hf a h

/-- A fault in a tag is an error at the position of the tag. -/
theorem ofTag {x : Except Fault α} {tag : Tag} (h : Ensures Q x) (hp : P tag.position) :
    Located P Q (x.mapError tag.error) := by
  cases x with
  | error fault => exact hp
  | ok a => exact h a rfl

end Located

/-! ## 2. Calls at positions -/

/-- The calls at these places are at the positions, whatever is bound around them. -/
def PlacedAt (P : Position → Prop) (sites : Scope → List CallSite) : Prop :=
  ∀ scope, ∀ site ∈ sites scope, P site.call.position

namespace PlacedAt

theorem nothing : PlacedAt P fun _ => [] :=
  fun _ _ => nofun

theorem append {s t : Scope → List CallSite} (h : PlacedAt P s) (h' : PlacedAt P t) :
    PlacedAt P fun scope => s scope ++ t scope := by
  intro scope site hm
  rcases List.mem_append.mp hm with hm | hm
  · exact h scope site hm
  · exact h' scope site hm

/-- More parameters that are bound are no matter. -/
theorem bound {s : Scope → List CallSite} (h : PlacedAt P s) (params : List String) :
    PlacedAt P fun scope => s (params :: scope) :=
  fun scope => h (params :: scope)

end PlacedAt

/-- The call and those in it are at the positions. -/
def Call.PlacedAt (P : Position → Prop) (call : Call) : Prop :=
  ∀ isSub, Stache.PlacedAt P fun scope => Call.sites scope isSub call

theorem Call.PlacedAt.of {callee : Expr} {params : List Expr} {hash : List (String × Expr)}
    {position : Position} (hp : P position) (hcallee : Stache.PlacedAt P callee.sites)
    (hparams : Stache.PlacedAt P (paramSites · params)) (hhash : Stache.PlacedAt P (hashSites · hash)) :
    Call.PlacedAt P ⟨callee, params, hash, position⟩ := by
  intro isSub scope site hm
  rcases List.mem_cons.mp hm with rfl | hm
  · exact hp
  · exact (hcallee.append (hparams.append hhash)) scope site hm

theorem placed_readLookup (tokens : List Token) :
    Ensures (fun r => PlacedAt P r.value.sites) (readLookup tokens) := by
  refine .bind (P := fun _ => True) (fun _ _ => trivial) fun l _ => ?_
  exact .ofOk .nothing

mutual

/-- Readers place calls at the position of their tag. -/
theorem placed_readExpr {position : Position} (hp : P position) (tokens : List Token) :
    Ensures (fun r => PlacedAt P r.value.sites) (readExpr position tokens) := by
  unfold readExpr
  split
  · exact .ofError _
  · exact .ofOk .nothing
  · exact .ofOk .nothing
  · exact .ofOk .nothing
  · exact .ofOk .nothing
  · exact .ofOk .nothing
  · rename_i rest
    refine .bind (placed_readCall hp rest) fun call hcall => ?_
    split
    · exact .ofOk (hcall true)
    · exact .ofError _
  · exact .ofError _
  · exact .ofError _
  · exact .ofError _
  · exact .ofError _
  · exact placed_readLookup _
  · exact placed_readLookup _
  · exact placed_readLookup _
termination_by (tokens.length, 0)

theorem placed_readCall {position : Position} (hp : P position) (tokens : List Token) :
    Ensures (fun r => Call.PlacedAt P r.value) (readCall position tokens) := by
  unfold readCall
  split
  · exact .ofError _
  · refine .bind (placed_readExpr hp tokens) fun callee hcallee => ?_
    have := callee.shorter
    refine .bind (placed_readArguments hp false callee.rest) fun arguments ⟨hparams, hhash⟩ => ?_
    exact .ofOk (.of hp hcallee hparams hhash)
termination_by (tokens.length, 1)

theorem placed_readArguments {position : Position} (hp : P position) (named : Bool) (tokens : List Token) :
    Ensures (fun r => PlacedAt P (paramSites · r.params) ∧ PlacedAt P (hashSites · r.hash))
      (readArguments position named tokens) := by
  unfold readArguments
  split
  · exact .ofOk ⟨.nothing, .nothing⟩
  · exact .ofOk ⟨.nothing, .nothing⟩
  · rename_i key rest
    refine .bind (placed_readExpr hp rest) fun value hvalue => ?_
    have := value.shorter
    refine .bind (placed_readArguments hp true value.rest) fun more ⟨hparams, hhash⟩ => ?_
    exact .ofOk ⟨hparams, hvalue.append hhash⟩
  · split
    · exact .ofError _
    · refine .bind (placed_readExpr hp _) fun value hvalue => ?_
      have := value.shorter
      refine .bind (placed_readArguments hp false value.rest) fun more ⟨hparams, hhash⟩ => ?_
      exact .ofOk ⟨hvalue.append hparams, hhash⟩
termination_by (tokens.length, 2)
decreasing_by
  all_goals
    subst_vars
    simp only [List.length_cons] at *
    decreasing_tactic

end

theorem placed_call {position : Position} (hp : P position) (tokens : List Token) :
    Ensures (Call.PlacedAt P) (Call.ofTokens position tokens) :=
  .bind (placed_readCall hp tokens) fun _ hc => .ite (fun _ => .ofOk hc) fun _ => .ofError _

/-- The calls in the head of a partial. -/
structure PartialHead.PlacedAt (P : Position → Prop) (head : PartialHead) : Prop where
  name : Stache.PlacedAt P head.name.sites
  context : Stache.PlacedAt P (contextSites · head.context)
  hash : Stache.PlacedAt P (hashSites · head.hash)

theorem placed_behindName {position : Position} (hp : P position) {e : Expr} (he : PlacedAt P e.sites)
    (rest : List Token) :
    Ensures (PartialHead.PlacedAt P)
      (do
        let arguments ← readArguments position false rest
        match arguments.params with
        | [] => return ⟨e, none, arguments.hash⟩
        | [context] => return ⟨e, some context, arguments.hash⟩
        | _ => throw .extraPartialContext : Except Fault PartialHead) := by
  refine .bind (placed_readArguments hp false rest) fun arguments ⟨hparams, hhash⟩ => ?_
  split
  · exact .ofOk ⟨he, .nothing, hhash⟩
  · rename_i context hcontext
    rw [hcontext] at hparams
    refine .ofOk ⟨he, fun scope site hm => ?_, hhash⟩
    exact hparams scope site (List.mem_append_left _ hm)
  · exact .ofError _

theorem placed_partialHead {position : Position} (hp : P position) (tokens : List Token) :
    Ensures (PartialHead.PlacedAt P) (PartialHead.ofTokens position tokens) := by
  unfold PartialHead.ofTokens
  split
  · exact .ofError _
  · exact .bind (placed_readExpr hp _) fun e he => placed_behindName hp he e.rest
  · exact .bind (placed_readExpr hp _) fun e he => placed_behindName hp he e.rest
  · exact .bind (placed_readLookup _) fun e he => placed_behindName hp he e.rest

/-! ## 3. Bodies and sections -/

/-- The calls in a part are at the positions. -/
def Part.PlacedAt (P : Position → Prop) : Part → Prop
  | .mustache call _ | .block _ call _ | .chain call => Call.PlacedAt P call
  | .partialTemplate head | .partialBlock head => head.PlacedAt P
  | .content _ | .comment | .otherwise | .close _ => True

/-- **The calls in a tag are at its position.** -/
theorem Tag.placed_part {tag : Tag} (hp : P tag.position) : Ensures (Part.PlacedAt P) tag.part := by
  have mapped {α : Type} {Q : α → Prop} {x : Except Fault α} {f : α → Part} (h : Ensures Q x)
      (hf : ∀ a, Q a → (f a).PlacedAt P) : Ensures (Part.PlacedAt P) (x.map f) := by
    cases x with
    | error fault => exact .ofError _
    | ok a => exact .ofOk (hf a (h a rfl))
  unfold Tag.part
  split
  · exact .ofOk trivial
  · refine .ite (fun _ => ?_) fun _ => mapped (placed_call hp _) fun _ hc => hc
    split
    · exact .ofOk trivial
    · exact mapped (placed_call hp _) fun _ hc => hc
  · exact mapped (placed_call hp _) fun _ hc => hc
  · exact mapped (Q := fun _ => True) (fun _ _ => trivial) fun _ _ => trivial
  · exact mapped (placed_partialHead hp _) fun _ hc => hc
  · exact mapped (placed_partialHead hp _) fun _ hc => hc
  · refine .ite (fun _ => .ofOk trivial) fun _ => ?_
    refine .bind (P := fun _ => True) (fun _ _ => trivial) ?_
    rintro ⟨tokens, params⟩ _
    exact .bind (placed_call hp tokens) fun call hc => .ofOk hc

/-- The tags are at the positions. -/
def SegmentsAt (P : Position → Prop) (segments : List Segment) : Prop :=
  ∀ tag, .tag tag ∈ segments → P tag.position

/-- The tag that ends a body is at one of the positions, and so is the call that it chains. -/
def Ending.PlacedAt (P : Position → Prop) : Ending → Prop
  | .eof => True
  | .close _ position => P position
  | .otherwise chain position => P position ∧ ∀ call ∈ chain, Call.PlacedAt P call

/-- What was read of a body. -/
def BodyAt (P : Position → Prop) : List Statement × Ending × List Segment → Prop
  | (body, ending, rest) => PlacedAt P (bodySites · body) ∧ ending.PlacedAt P ∧ SegmentsAt P rest

/-- What was read of the sections of a block. -/
def SectionsAt (P : Position → Prop) : List Statement × Option Program × List Segment → Prop
  | (main, inverse, rest) =>
    PlacedAt P (bodySites · main) ∧ PlacedAt P (sectionSites · inverse) ∧ SegmentsAt P rest

theorem SegmentsAt.tail {segment : Segment} {segments : List Segment}
    (h : SegmentsAt P (segment :: segments)) : SegmentsAt P segments :=
  fun tag hm => h tag (List.mem_cons_of_mem _ hm)

/-- The calls of a block are that of its tag and those of its sections. -/
theorem placed_blockStatement {inverted : Bool} {call : Call} {params : List String} {main : List Statement}
    {inverse : Option Program} (hc : Call.PlacedAt P call) (hm : PlacedAt P (bodySites · main))
    (hi : PlacedAt P (sectionSites · inverse)) :
    PlacedAt P fun scope => (blockStatement inverted call params main inverse).sites scope := by
  unfold blockStatement
  split
  · exact (hc false).append (hi.append (hm.bound params))
  · exact (hc false).append ((hm.bound params).append hi)

/-- A statement in front of a body. -/
theorem located_bodyBehind {statement : Statement} {segments : List Segment}
    (hs : PlacedAt P (statement.sites ·)) (h : Located P (BodyAt P) (bodyOf segments)) :
    Located P (BodyAt P) (bodyBehind statement segments) :=
  h.map fun (_, _, _) ⟨hbody, hends, hrest⟩ => ⟨hs.append hbody, hends, hrest⟩

mutual

/-- **A body is read at the positions of its tags**: so are its errors, its calls, and how it ends. -/
theorem located_bodyOf (segments : List Segment) (h : SegmentsAt P segments) :
    Located P (BodyAt P) (bodyOf segments) := by
  cases segments with
  | nil =>
    rw [bodyOf_nil]
    exact ⟨.nothing, trivial, nofun⟩
  | cons segment rest =>
    have hrest := h.tail
    have hbody := located_bodyOf rest hrest
    rw [bodyOf_cons]
    cases segment with
    | content text => exact located_bodyBehind .nothing hbody
    | tag tag =>
      have hposition : P tag.position := h tag List.mem_cons_self
      refine .bind (.ofTag (Tag.placed_part hposition) hposition) fun part _ hplaced => ?_
      cases part with
      | content text => exact located_bodyBehind .nothing hbody
      | comment => exact hbody
      | mustache call escaped => exact located_bodyBehind (hplaced false) hbody
      | partialTemplate head =>
        exact located_bodyBehind
          (hplaced.name.append (hplaced.context.append (hplaced.hash.append .nothing))) hbody
      | partialBlock head =>
        refine .bind (located_sectionsOf _ hposition rest hrest)
          fun (main, inverse, left) hread ⟨hmain, _, hleft⟩ => ?_
        have := length_of_sectionsOf hread
        cases inverse with
        | some => exact hposition
        | none =>
          exact located_bodyBehind (hplaced.name.append (hplaced.context.append
            (hplaced.hash.append (hmain.bound [])))) (located_bodyOf left hleft)
      | block inverted call params =>
        refine .bind (located_sectionsOf _ hposition rest hrest)
          fun (main, inverse, left) hread ⟨hmain, hinverse, hleft⟩ => ?_
        have := length_of_sectionsOf hread
        exact located_bodyBehind (placed_blockStatement hplaced hmain hinverse) (located_bodyOf left hleft)
      | chain call =>
        refine ⟨.nothing, ⟨hposition, ?_⟩, hrest⟩
        rintro _ ⟨⟩
        exact hplaced
      | otherwise => exact ⟨.nothing, ⟨hposition, nofun⟩, hrest⟩
      | close name => exact ⟨.nothing, hposition, hrest⟩
termination_by (segments.length, 0)
decreasing_by
  all_goals
    subst_vars
    simp only [List.length_cons] at *
    decreasing_tactic

theorem located_sectionsOf (name : String) {opened : Position} (ho : P opened) (segments : List Segment)
    (h : SegmentsAt P segments) : Located P (SectionsAt P) (sectionsOf name opened segments) := by
  rw [sectionsOf_eq]
  refine .bind (located_bodyOf segments h) fun (main, ending, rest) hread ⟨hmain, hends, hrest⟩ => ?_
  have := length_of_bodyOf hread
  cases ending with
  | eof => exact ho
  | close closed position =>
    dsimp only
    split
    · exact ⟨hmain, .nothing, hrest⟩
    · exact hends
  | otherwise chain position =>
    have : rest.length < segments.length := by
      simp only [Ending.cost] at this
      omega
    cases chain with
    | none =>
      refine .bind (located_bodyOf rest hrest) fun (second, ending, left) _ ⟨hsecond, hlast, hleft⟩ => ?_
      cases ending with
      | eof => exact ho
      | otherwise chain position => exact hlast.1
      | close closed position =>
        dsimp only
        split
        · exact ⟨hmain, hsecond.bound [], hleft⟩
        · exact hlast
    | some call =>
      refine .bind (located_sectionsOf name hends.1 rest hrest)
        fun (chained, inverse, left) _ ⟨hchained, hinverse, hleft⟩ => ?_
      have hblock := (hends.2 call rfl false).append ((hchained.bound []).append hinverse)
      exact ⟨hmain, (hblock.append .nothing).bound [], hleft⟩
termination_by (segments.length, 1)

end

/-- **A tree is read at the positions of the tags.** -/
theorem located_ofSegments {segments : List Segment} (h : SegmentsAt P segments) :
    Located P (fun program : Program => PlacedAt P (bodySites · program.body))
      (Program.ofSegments segments) := by
  have hbody := located_bodyOf segments h
  rw [bodyOf] at hbody
  unfold Program.ofSegments
  cases hread : readBody segments with
  | error error =>
    rw [hread] at hbody
    exact hbody
  | ok body =>
    obtain ⟨statements, ending, rest, fits⟩ := body
    rw [hread] at hbody
    obtain ⟨hplaced, hends, _⟩ := hbody
    cases ending with
    | eof => exact hplaced
    | close name position => exact hends
    | otherwise chain position => exact hends.1

/-! ## 4. From the source to the fault -/

/-- The segments of pieces are at the positions where the pieces open tags. -/
theorem located_ofPieces {pieces : List Piece} (strip : Bool)
    (h : ∀ piece ∈ pieces, ∀ position ∈ piece.opening?, P position) :
    Located P (SegmentsAt P) (Segment.ofPieces strip pieces) := by
  induction pieces generalizing strip with
  | nil => exact nofun
  | cons piece pieces ih =>
    obtain ⟨hpiece, hpieces⟩ := List.forall_mem_cons.mp h
    cases piece with
    | unclosed position => exact hpiece position rfl
    | text raw =>
      refine .bind (ih false hpieces) fun segments _ hs => ?_
      exact fun tag hm => hs tag ((List.mem_cons.mp hm).resolve_left nofun)
    | tag raw position =>
      have hposition : P position := hpiece position rfl
      have hread : Located P (fun tag : Tag => tag.position = position) (Segment.readTag raw position) := by
        unfold Segment.readTag
        split
        · exact rfl
        · split
          · exact rfl
          · exact hposition
      refine .bind hread fun read _ hr => .bind (ih _ hpieces) fun segments _ hs => ?_
      intro tag hm
      rcases List.mem_cons.mp hm with e | hm
      · cases e
        exact hr ▸ hposition
      · exact hs tag hm

/-- A template is read at the positions where the scanner opens its tags. -/
theorem located_parse (source : String) : Located (OpenedAt source.toList)
    (fun program : Program => PlacedAt (OpenedAt source.toList) (bodySites · program.body))
    (Program.parse source) :=
  .bind (located_ofPieces false fun piece hm _ ho => ⟨piece, hm, ho⟩) fun _ _ hs => located_ofSegments hs

/-- The fault of an outline, if it has one, is at one of the places. -/
def FaultAt (sites : List CallSite) (o : Outline) : Prop :=
  ∀ error, o.fault = some error → ∃ site ∈ sites, error.position = site.call.position

theorem FaultAt.none {sites : List CallSite} {o : Outline} (h : o.fault = .none) : FaultAt sites o := by
  intro error he
  cases h.symm.trans he

theorem FaultAt.mono {s t : List CallSite} {o : Outline} (h : FaultAt s o) (hst : ∀ site ∈ s, site ∈ t) :
    FaultAt t o := by
  intro error he
  obtain ⟨site, hm, hposition⟩ := h error he
  exact ⟨site, hst site hm, hposition⟩

theorem FaultAt.append {s t : List CallSite} {a b : Outline} (ha : FaultAt s a) (hb : FaultAt t b) :
    FaultAt (s ++ t) (a ++ b) := by
  intro error he
  cases hf : a.fault with
  | some first =>
    rw [Outline.append_of_fault (by rw [hf]; rfl)] at he
    exact ha.mono (fun _ => List.mem_append_left t) error he
  | none =>
    rw [Outline.append_of_none hf] at he
    exact hb.mono (fun _ => List.mem_append_right s) error he

/-- **A call that is refused is refused at its position.** -/
theorem fault_relation (hints : Hints) : OutlineRelation hints hints fun sites a _ => FaultAt sites a where
  nothing := .none rfl
  append ha hb := ha.append hb
  perm hp h := h.mono fun _ => hp.mem_iff.mp
  chain _ _ := .none rfl
  text _ _ := .none rfl
  partialName _ := .none rfl
  call scope isSub call t hc ha := by
    have behind : ∀ site ∈ call.callee.sites scope ++ t,
        site ∈ ⟨scope, isSub, call⟩ :: (call.callee.sites scope ++ t) := fun _ => List.mem_cons_of_mem _
    rw [outline_invocation]
    cases call.calleeKind hints scope isSub with
    | helper name =>
      have harguments : FaultAt ([] ++ t) (.one (helperReference name) ++ call.argumentsOutline hints scope) :=
        (FaultAt.none rfl).append ha
      exact harguments.mono fun site hm => behind site (List.mem_append_right _ hm)
    | ambiguous name => exact .none rfl
    | value =>
      dsimp only
      split
      · exact (hc.append ha).mono behind
      · exact hc.mono fun site hm => behind site (List.mem_append_left _ hm)
    | refused name =>
      intro error he
      cases he
      exact ⟨_, List.mem_cons_self, rfl⟩

/-- The fault of a template is where the scanner opens a tag. -/
theorem fault_outline {hints : Hints} {source : String} {error : SyntaxError}
    (h : (compilationOutline hints source).fault = some error) : OpenedAt source.toList error.position := by
  have hparse := located_parse source
  unfold compilationOutline at h
  cases hread : Program.parse source with
  | error other =>
    rw [hread] at h hparse
    cases h
    exact hparse
  | ok program =>
    rw [hread] at h hparse
    obtain ⟨site, hm, hposition⟩ := (fault_relation hints).program program error h
    rw [hposition]
    exact hparse [] site hm

/-- **A template that is rejected is rejected at the braces of a tag.** Whoever answers and whatever is known
    about helpers, the position of the error is one where the scanner opened a tag or found it unclosed; there
    `{{` stands in the source text, and the line and the column count, from one, the line feeds before it and
    the bytes since the last of them. -/
theorem fault_opened {σ : Type} {hints : Hints} {source : String} {policy : Reference → σ → Option String × σ}
    {state : σ} {error : SyntaxError} (h : ((compilation hints source).run policy state).1 = .error error) :
    OpenedAt source.toList error.position ∧
      ∃ front behind, source.toList = front ++ (openingMark ++ behind) ∧
        error.position = ⟨front.count '\n' + 1, Position.bytes (Position.lastLine front) + 1⟩ := by
  have hfault : (compilationOutline hints source).fault = some error := by
    have hrun := (asks_compilation hints source).run_eq policy state
    cases hf : (compilationOutline hints source).fault with
    | none =>
      rw [hf] at hrun
      obtain ⟨code, hcode⟩ := hrun
      cases hcode.symm.trans h
    | some other =>
      rw [hf] at hrun
      cases hrun.symm.trans h
      rfl
  have hopened := fault_outline hfault
  obtain ⟨front, behind, htext, hposition⟩ := hopened.mark
  exact ⟨hopened, front, behind, htext, hposition.trans (Position.start_after front)⟩

/-- A closing tag without a block, behind letters of two bytes. -/
def strayCloseSource : String := "é\n é\x7b\x7b/b\x7d\x7d"

theorem parse_strayClose :
    Program.parse strayCloseSource = .error ⟨.strayClose "b", ⟨2, 4⟩⟩ := by
  have tokens : Token.tokenize ['b'] = .ok [.id "b"] := Token.tokenize_word (by decide)
  have pieces : pieces strayCloseSource.toList =
      [.text ['é', '\n', ' ', 'é'], .tag ⟨.close, false, false, ['b']⟩ ⟨2, 4⟩] := by decide +kernel
  have scanned : scan strayCloseSource =
      .ok [.content "é\n é", .tag ⟨.close, [.id "b"], ⟨2, 4⟩⟩] := by
    rw [scan, pieces]
    simp only [Segment.ofPieces, Segment.readTag, tokens]
    rfl
  rw [Program.parse, scanned]
  show Program.ofSegments [.content "é\n é", .tag ⟨.close, [.id "b"], ⟨2, 4⟩⟩] = _
  unfold Program.ofSegments readBody readBody
  rfl

theorem fault_opened_strayClose :
    ((compilation ⟨false, ∅⟩ strayCloseSource).run (fun _ state => (none, state)) ()).1 =
        .error ⟨.strayClose "b", ⟨2, 4⟩⟩ ∧
      OpenedAt strayCloseSource.toList ⟨2, 4⟩ ∧
      ∃ front behind, strayCloseSource.toList = front ++ (openingMark ++ behind) ∧
        (⟨2, 4⟩ : Position) = ⟨front.count '\n' + 1, Position.bytes (Position.lastLine front) + 1⟩ := by
  have rejected : ((compilation ⟨false, ∅⟩ strayCloseSource).run (fun _ state => (none, state)) ()).1 =
      .error ⟨.strayClose "b", ⟨2, 4⟩⟩ := by
    rw [compilation, parse_strayClose]
    rfl
  exact ⟨rejected, fault_opened rejected⟩

end Stache
