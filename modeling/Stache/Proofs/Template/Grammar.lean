import Stache.Proofs.Outcome
import Stache.Template.Blocks

/-!
# The grammar of blocks

`Program.ofSegments` accepts exactly what the grammar of blocks derives, and the tree is the one of the
derivation. The reader goes from left to right and decides at every ending of a body whether it is right
there; the grammar says the same without any order.

* `Part`, `Segment.part` -- what a segment is, read from its own tokens;
* `IsBody`, `IsSections` -- the grammar, with the statements and the sections that it builds;
* `bodyOf_cons`, `sectionsOf_eq` -- one step of the reader;
* `derived_bodyOf`, `derived_sectionsOf` -- what is read is derived;
* `bodyOf_derived`, `sectionsOf_derived` -- what is derived is read;
* `ofSegments_iff_derives` -- **a template is accepted with a tree if it derives this tree and no other**.
-/

namespace Stache

/-! ## 1. What segments are -/

/-- What a segment is in the structure of a template. -/
inductive Part where
  /-- Static content. -/
  | content (text : String)
  /-- A comment. -/
  | comment
  /-- A mustache, escaped or not. -/
  | mustache (call : Call) (escaped : Bool)
  /-- A partial. -/
  | partialTemplate (head : PartialHead)
  /-- A partial block is opened. -/
  | partialBlock (head : PartialHead)
  /-- A block is opened, with its block parameters. It is inverted if it is opened by `{{^`. -/
  | block (inverted : Bool) (call : Call) (params : List String)
  /-- `{{else call}}`: the next section belongs to a call of its own. -/
  | chain (call : Call)
  /-- `{{else}}` or `{{^}}`. -/
  | otherwise
  /-- A block is closed. -/
  | close (name : String)

/-- What a tag is, told by its kind and its tokens. -/
def Tag.part (tag : Tag) : Except Fault Part :=
  match tag.kind with
  | .comment => .ok .comment
  | .escaped =>
    if isElse tag.tokens then
      match tag.tokens.tail with
      | [] => .ok .otherwise
      | tokens => (Call.ofTokens tag.position tokens).map .chain
    else (Call.ofTokens tag.position tag.tokens).map (.mustache · true)
  | .unescaped => (Call.ofTokens tag.position tag.tokens).map (.mustache · false)
  | .close => (closeName tag.tokens).map .close
  | .partialTemplate => (PartialHead.ofTokens tag.position tag.tokens).map .partialTemplate
  | .partialBlock => (PartialHead.ofTokens tag.position tag.tokens).map .partialBlock
  | kind =>
    if kind = .inverse ∧ tag.tokens = [] then .ok .otherwise
    else do
      let (tokens, params) ← splitParams tag.tokens
      let call ← Call.ofTokens tag.position tokens
      return .block (kind = .inverse) call params

/-- What a segment is, if its own tokens can be read. -/
def Segment.part : Segment → Except SyntaxError Part
  | .content text => .ok (.content text)
  | .tag read => read.part.mapError read.error

/-- Where a segment begins, if it is a tag. -/
def Segment.position : Segment → Position
  | .content _ => .start
  | .tag read => read.position

/-! ## 2. The grammar -/

/-- The statement of a block with its sections: an inverted one has them exchanged. -/
def blockStatement (inverted : Bool) (call : Call) (params : List String) (main : List Statement)
    (inverse : Option Program) : Statement :=
  if inverted then .block call inverse (some ⟨main, params⟩)
  else .block call (some ⟨main, params⟩) inverse

mutual

/-- The parts are a body of these statements: content, mustaches, partials and closed blocks. Comments are
    dropped. -/
inductive IsBody : List Part → List Statement → Prop
  | nil : IsBody [] []
  | content (text : String) {parts : List Part} {body : List Statement} (rest : IsBody parts body) :
    IsBody (.content text :: parts) (.content text :: body)
  | comment {parts : List Part} {body : List Statement} (rest : IsBody parts body) :
    IsBody (.comment :: parts) body
  | mustache (call : Call) (escaped : Bool) {parts : List Part} {body : List Statement}
    (rest : IsBody parts body) :
    IsBody (.mustache call escaped :: parts) (.mustache call escaped :: body)
  | partialTemplate (head : PartialHead) {parts : List Part} {body : List Statement}
    (rest : IsBody parts body) :
    IsBody (.partialTemplate head :: parts)
      (.partialTemplate head.name head.context head.hash none :: body)
  /-- A partial block has a body without an else, and a closing tag that is spelled like the partial. -/
  | partialBlock (head : PartialHead) {inner parts : List Part} {fallback body : List Statement}
    (nested : IsBody inner fallback) (rest : IsBody parts body) :
    IsBody (.partialBlock head :: inner ++ .close head.name.spelling :: parts)
      (.partialTemplate head.name head.context head.hash (some ⟨fallback, []⟩) :: body)
  /-- A block has sections, the last of which ends with a closing tag that is spelled like the callee. -/
  | block (inverted : Bool) (call : Call) (params : List String) {inner parts : List Part}
    {main body : List Statement} {inverse : Option Program}
    (nested : IsSections call.callee.spelling inner main inverse) (rest : IsBody parts body) :
    IsBody (.block inverted call params :: inner ++ parts)
      (blockStatement inverted call params main inverse :: body)

/-- The parts are the sections of a block and its closing tag: a body, chained sections, and one plain else
    at most. -/
inductive IsSections : String → List Part → List Statement → Option Program → Prop
  | closed {name : String} {parts : List Part} {main : List Statement} (first : IsBody parts main) :
    IsSections name (parts ++ [.close name]) main none
  | otherwise {name : String} {parts more : List Part} {main body : List Statement}
    (first : IsBody parts main) (second : IsBody more body) :
    IsSections name (parts ++ .otherwise :: more ++ [.close name]) main (some ⟨body, []⟩)
  /-- A chained section is a block, which is all that the section before it has for an inverse. -/
  | chain {name : String} (call : Call) {parts more : List Part} {main body : List Statement}
    {inverse : Option Program} (first : IsBody parts main)
    (chained : IsSections name more body inverse) :
    IsSections name (parts ++ .chain call :: more) main
      (some ⟨[.block call (some ⟨body, []⟩) inverse], []⟩)

end

/-- The segments derive the tree: the tokens of every tag can be read, and what the tags are is a body. -/
def Derives (segments : List Segment) (program : Program) : Prop :=
  ∃ parts, segments.mapM Segment.part = .ok parts ∧ IsBody parts program.body ∧
    program.blockParams = []

/-! ## 3. The reader, step by step -/

/-- What the reader of bodies comes to: statements, the ending, and the segments that are left. -/
def bodyOf (segments : List Segment) : Except SyntaxError (List Statement × Ending × List Segment) :=
  (readBody segments).map fun body => (body.statements, body.ending, body.rest)

/-- What the reader of sections comes to: the first section, the inverse, and the segments that are left. -/
def sectionsOf (name : String) (opened : Position) (segments : List Segment) :
    Except SyntaxError (List Statement × Option Program × List Segment) :=
  (readSections name opened segments).map fun sections =>
    (sections.main, sections.inverse, sections.rest)

/-- The body of the segments, with a statement in front. -/
def bodyBehind (statement : Statement) (segments : List Segment) :
    Except SyntaxError (List Statement × Ending × List Segment) :=
  (bodyOf segments).map fun (body, ending, rest) => (statement :: body, ending, rest)

/-- How the reader goes on behind a part. -/
def bodyAfter (position : Position) (rest : List Segment) :
    Part → Except SyntaxError (List Statement × Ending × List Segment)
  | .content text => bodyBehind (.content text) rest
  | .comment => bodyOf rest
  | .mustache call escaped => bodyBehind (.mustache call escaped) rest
  | .partialTemplate head =>
    bodyBehind (.partialTemplate head.name head.context head.hash none) rest
  | .partialBlock head => do
    let (main, inverse, rest) ← sectionsOf head.name.spelling position rest
    if inverse.isSome then throw ⟨.elseInPartial, position⟩
    bodyBehind (.partialTemplate head.name head.context head.hash (some ⟨main, []⟩)) rest
  | .block inverted call params => do
    let (main, inverse, rest) ← sectionsOf call.callee.spelling position rest
    bodyBehind (blockStatement inverted call params main inverse) rest
  | .chain call => .ok ([], .otherwise (some call) position, rest)
  | .otherwise => .ok ([], .otherwise none position, rest)
  | .close name => .ok ([], .close name position, rest)

theorem bodyOf_nil : bodyOf [] = .ok ([], .eof, []) := by
  unfold bodyOf readBody
  rfl

theorem bodyBehind_eq (statement : Statement) {rest longer : List Segment}
    (h : rest.length ≤ longer.length) :
    ((do return (← readBody rest).cons statement h : Except SyntaxError (BodyRead longer)).map
      fun body => (body.statements, body.ending, body.rest)) = bodyBehind statement rest := by
  unfold bodyBehind bodyOf
  cases readBody rest <;> rfl

theorem ofSections_eq (kind : TagKind) (call : Call) (params : List String) (main : List Statement)
    (inverse : Option Program) : Statement.ofSections kind call params main inverse =
      blockStatement (kind = .inverse) call params main inverse := by
  unfold Statement.ofSections blockStatement
  simp only [decide_eq_true_eq]

/-- Behind the closing tag of a block less is left than there was with the opening tag. -/
theorem SectionsRead.fits {rest : List Segment} (sections : SectionsRead rest) (tag : Tag) :
    sections.rest.length ≤ (Segment.tag tag :: rest).length :=
  Nat.le_succ_of_le sections.noLonger

/-- Behind the tag that opens a block its sections are read. -/
theorem opened_eq (tag : Tag) (rest : List Segment) (kind : TagKind) :
    (do
      let (tokens, params) ← (splitParams tag.tokens).mapError tag.error
      let call ← (Call.ofTokens tag.position tokens).mapError tag.error
      let sections ← readSections call.callee.spelling tag.position rest
      have := sections.noLonger
      let body ← readBody sections.rest
      return body.cons (.ofSections kind call params sections.main sections.inverse)
        (sections.fits tag) : Except SyntaxError (BodyRead (.tag tag :: rest))).map
      (fun body => (body.statements, body.ending, body.rest)) =
    ((do
      let (tokens, params) ← splitParams tag.tokens
      let call ← Call.ofTokens tag.position tokens
      return .block (kind = .inverse) call params : Except Fault Part).mapError tag.error >>=
        bodyAfter tag.position rest) := by
  cases splitParams tag.tokens with
  | error => rfl
  | ok split =>
    obtain ⟨tokens, params⟩ := split
    dsimp only [Except.mapError, bind, Except.bind]
    cases Call.ofTokens tag.position tokens with
    | error => rfl
    | ok call =>
      dsimp only [pure, Except.pure, bodyAfter]
      unfold sectionsOf
      cases readSections call.callee.spelling tag.position rest with
      | error => rfl
      | ok sections =>
        dsimp only [Except.map, bind, Except.bind]
        rw [← ofSections_eq]
        exact bodyBehind_eq _ _

/-- **A body is read part by part.** -/
theorem bodyOf_cons (segment : Segment) (rest : List Segment) :
    bodyOf (segment :: rest) = segment.part >>= bodyAfter segment.position rest := by
  cases segment with
  | content text =>
    show (readBody (.content text :: rest)).map _ = bodyBehind (.content text) rest
    unfold readBody
    exact bodyBehind_eq _ _
  | tag tag =>
    show (readBody (.tag tag :: rest)).map _ = tag.part.mapError tag.error >>= bodyAfter tag.position rest
    unfold readBody Tag.part
    dsimp only
    cases hkind : tag.kind with
    | comment =>
      dsimp only
      show _ = bodyOf rest
      unfold bodyOf
      cases readBody rest <;> rfl
    | escaped =>
      dsimp only
      split
      · cases tag.tokens.tail with
        | nil => rfl
        | cons token tokens =>
          dsimp only
          cases Call.ofTokens tag.position (token :: tokens) <;> rfl
      · cases Call.ofTokens tag.position tag.tokens with
        | error => rfl
        | ok call => exact bodyBehind_eq _ _
    | unescaped =>
      dsimp only
      cases Call.ofTokens tag.position tag.tokens with
      | error => rfl
      | ok call => exact bodyBehind_eq _ _
    | close =>
      dsimp only
      cases closeName tag.tokens <;> rfl
    | partialTemplate =>
      dsimp only
      cases PartialHead.ofTokens tag.position tag.tokens with
      | error => rfl
      | ok head => exact bodyBehind_eq _ _
    | partialBlock =>
      dsimp only
      cases PartialHead.ofTokens tag.position tag.tokens with
      | error => rfl
      | ok head =>
        show _ = bodyAfter tag.position rest (.partialBlock head)
        unfold bodyAfter sectionsOf
        dsimp only [Except.mapError, bind, Except.bind]
        cases readSections head.name.spelling tag.position rest with
        | error => rfl
        | ok sections =>
          dsimp only [Except.map]
          cases sections.inverse with
          | none => exact bodyBehind_eq _ _
          | some => rfl
    | block =>
      dsimp only
      have hplain : ¬ (TagKind.block = .inverse ∧ tag.tokens = []) := nofun
      rw [if_neg hplain, if_neg hplain]
      exact opened_eq tag rest .block
    | inverse =>
      dsimp only
      by_cases hempty : tag.tokens = []
      · rw [if_pos ⟨rfl, hempty⟩, if_pos ⟨rfl, hempty⟩]
        rfl
      · have hcalled : ¬ (TagKind.inverse = .inverse ∧ tag.tokens = []) := fun h => hempty h.2
        rw [if_neg hcalled, if_neg hcalled]
        exact opened_eq tag rest .inverse

/-- **The sections of a block are read body by body.** -/
theorem sectionsOf_eq (name : String) (opened : Position) (segments : List Segment) :
    sectionsOf name opened segments = (do
      let (main, ending, rest) ← bodyOf segments
      match ending with
      | .eof => throw ⟨.unclosedBlock name, opened⟩
      | .close closed position =>
        if closed = name then return (main, none, rest)
        else throw ⟨.mismatchedClose name closed, position⟩
      | .otherwise none _ =>
        let (second, ending, rest) ← bodyOf rest
        match ending with
        | .eof => throw ⟨.unclosedBlock name, opened⟩
        | .otherwise _ position => throw ⟨.duplicateElse name, position⟩
        | .close closed position =>
          if closed = name then return (main, some ⟨second, []⟩, rest)
          else throw ⟨.mismatchedClose name closed, position⟩
      | .otherwise (some call) position =>
        let (chained, inverse, rest) ← sectionsOf name position rest
        return (main, some ⟨[.block call (some ⟨chained, []⟩) inverse], []⟩, rest)) := by
  unfold bodyOf
  rw [sectionsOf, readSections]
  cases readBody segments with
  | error => rfl
  | ok first =>
    obtain ⟨main, ending, rest, fits⟩ := first
    dsimp only [Except.map, bind, Except.bind]
    cases ending with
    | eof => rfl
    | close closed position =>
      dsimp only
      by_cases hname : closed = name
      · rw [if_pos hname, if_pos hname]
        rfl
      · rw [if_neg hname, if_neg hname]
        rfl
    | otherwise chain position =>
      cases chain with
      | none =>
        dsimp only
        cases readBody rest with
        | error => rfl
        | ok second =>
          obtain ⟨body, ending, left, fits⟩ := second
          dsimp only
          cases ending with
          | eof => rfl
          | otherwise => rfl
          | close closed position =>
            dsimp only
            by_cases hname : closed = name
            · rw [if_pos hname, if_pos hname]
              rfl
            · rw [if_neg hname, if_neg hname]
              rfl
      | some call =>
        dsimp only
        unfold sectionsOf
        cases readSections name position rest <;> rfl

theorem length_of_bodyOf {segments rest : List Segment} {body : List Statement} {ending : Ending}
    (h : bodyOf segments = .ok (body, ending, rest)) : rest.length + ending.cost ≤ segments.length := by
  obtain ⟨read, _, he⟩ := map_eq_ok.mp h
  cases he
  exact read.fits

theorem length_of_sectionsOf {name : String} {opened : Position} {segments rest : List Segment}
    {main : List Statement} {inverse : Option Program}
    (h : sectionsOf name opened segments = .ok (main, inverse, rest)) :
    rest.length ≤ segments.length := by
  obtain ⟨read, _, he⟩ := map_eq_ok.mp h
  cases he
  exact read.noLonger

theorem bodyBehind_eq_ok {statement : Statement} {segments rest : List Segment}
    {body : List Statement} {ending : Ending} :
    bodyBehind statement segments = .ok (body, ending, rest) ↔
      ∃ behind, bodyOf segments = .ok (behind, ending, rest) ∧ body = statement :: behind := by
  constructor
  · intro h
    obtain ⟨⟨behind, _, _⟩, hbody, he⟩ := map_eq_ok.mp h
    cases he
    exact ⟨behind, hbody, rfl⟩
  · rintro ⟨behind, hbody, rfl⟩
    exact map_eq_ok.mpr ⟨_, hbody, rfl⟩

/-! ## 4. What is read is derived -/

/-- The segments are these parts, up to a rest. -/
inductive Reads : List Segment → List Part → List Segment → Prop
  | nil (rest : List Segment) : Reads rest [] rest
  | cons {segment : Segment} {part : Part} {segments rest : List Segment} {parts : List Part}
    (first : segment.part = .ok part) (behind : Reads segments parts rest) :
    Reads (segment :: segments) (part :: parts) rest

namespace Reads

variable {segments middle rest : List Segment} {parts more : List Part} {segment : Segment} {part : Part}

theorem one (h : segment.part = .ok part) (rest : List Segment) : Reads (segment :: rest) [part] rest :=
  .cons h (.nil rest)

theorem trans (h : Reads segments parts middle) (h' : Reads middle more rest) :
    Reads segments (parts ++ more) rest := by
  induction h with
  | nil => exact h'
  | cons first _ ih => exact .cons first (ih h')

/-- Where the parts are cut, the segments are cut. -/
theorem split (h : Reads segments (parts ++ more) rest) :
    ∃ middle, Reads segments parts middle ∧ Reads middle more rest := by
  induction parts generalizing segments with
  | nil => exact ⟨segments, .nil segments, h⟩
  | cons part parts ih =>
    cases h with
    | cons first behind =>
      obtain ⟨middle, hparts, hmore⟩ := ih behind
      exact ⟨middle, .cons first hparts, hmore⟩

/-- Up to the end they are all that the segments are. -/
theorem iff_mapM : Reads segments parts [] ↔ segments.mapM Segment.part = .ok parts := by
  induction segments generalizing parts with
  | nil =>
    constructor
    · rintro ⟨⟩
      rfl
    · rintro ⟨⟩
      exact .nil []
  | cons segment segments ih =>
    rw [List.mapM_cons]
    constructor
    · intro h
      cases h with
      | cons first behind =>
        exact bind_eq_ok.mpr ⟨_, first, bind_eq_ok.mpr ⟨_, ih.mp behind, rfl⟩⟩
    · intro h
      obtain ⟨part, first, h⟩ := bind_eq_ok.mp h
      obtain ⟨parts, behind, he⟩ := bind_eq_ok.mp h
      cases he
      exact .cons first (ih.mpr behind)

end Reads

/-- The part that ends a body, if it is not the end of the text. -/
def Ending.parts : Ending → List Part
  | .eof => []
  | .close name _ => [.close name]
  | .otherwise none _ => [.otherwise]
  | .otherwise (some call) _ => [.chain call]

mutual

/-- **What is read of a body is derived.** -/
theorem derived_bodyOf (segments : List Segment) {body : List Statement} {ending : Ending}
    {rest : List Segment} (h : bodyOf segments = .ok (body, ending, rest)) :
    ∃ parts, Reads segments (parts ++ ending.parts) rest ∧ IsBody parts body ∧
      (ending = .eof → rest = []) := by
  cases segments with
  | nil =>
    rw [bodyOf_nil] at h
    cases h
    exact ⟨[], .nil [], .nil, fun _ => rfl⟩
  | cons segment segments =>
    rw [bodyOf_cons] at h
    obtain ⟨part, hpart, h⟩ := bind_eq_ok.mp h
    cases part with
    | content text =>
      obtain ⟨behind, hbody, rfl⟩ := bodyBehind_eq_ok.mp h
      obtain ⟨parts, hreads, hderived, heof⟩ := derived_bodyOf segments hbody
      exact ⟨.content text :: parts, .cons hpart hreads, .content text hderived, heof⟩
    | comment =>
      obtain ⟨parts, hreads, hderived, heof⟩ := derived_bodyOf segments h
      exact ⟨.comment :: parts, .cons hpart hreads, .comment hderived, heof⟩
    | mustache call escaped =>
      obtain ⟨behind, hbody, rfl⟩ := bodyBehind_eq_ok.mp h
      obtain ⟨parts, hreads, hderived, heof⟩ := derived_bodyOf segments hbody
      exact ⟨_ :: parts, .cons hpart hreads, .mustache call escaped hderived, heof⟩
    | partialTemplate head =>
      obtain ⟨behind, hbody, rfl⟩ := bodyBehind_eq_ok.mp h
      obtain ⟨parts, hreads, hderived, heof⟩ := derived_bodyOf segments hbody
      exact ⟨_ :: parts, .cons hpart hreads, .partialTemplate head hderived, heof⟩
    | partialBlock head =>
      obtain ⟨⟨main, inverse, left⟩, hsections, h⟩ := bind_eq_ok.mp h
      dsimp only at h
      cases inverse with
      | some => cases h
      | none =>
        obtain ⟨behind, hbody, rfl⟩ := bodyBehind_eq_ok.mp h
        have := length_of_sectionsOf hsections
        obtain ⟨inner, hinner, hnested⟩ := derived_sectionsOf _ _ segments hsections
        obtain ⟨parts, hreads, hderived, heof⟩ := derived_bodyOf left hbody
        cases hnested with
        | @closed _ inner _ hfirst =>
          refine ⟨_, ?_, .partialBlock head hfirst hderived, heof⟩
          have hall := Reads.cons hpart (hinner.trans hreads)
          simpa only [List.cons_append, List.append_assoc, List.nil_append] using hall
    | block inverted call params =>
      obtain ⟨⟨main, inverse, left⟩, hsections, h⟩ := bind_eq_ok.mp h
      obtain ⟨behind, hbody, rfl⟩ := bodyBehind_eq_ok.mp h
      have := length_of_sectionsOf hsections
      obtain ⟨inner, hinner, hnested⟩ := derived_sectionsOf _ _ segments hsections
      obtain ⟨parts, hreads, hderived, heof⟩ := derived_bodyOf left hbody
      refine ⟨_, ?_, .block inverted call params hnested hderived, heof⟩
      have hall := Reads.cons hpart (hinner.trans hreads)
      simpa only [List.cons_append, List.append_assoc] using hall
    | chain call =>
      cases h
      exact ⟨[], .one hpart _, .nil, nofun⟩
    | otherwise =>
      cases h
      exact ⟨[], .one hpart _, .nil, nofun⟩
    | close name =>
      cases h
      exact ⟨[], .one hpart _, .nil, nofun⟩
termination_by (segments.length, 0)
decreasing_by
  all_goals
    subst_vars
    simp only [List.length_cons] at *
    decreasing_tactic

/-- **What is read of sections is derived.** -/
theorem derived_sectionsOf (name : String) (opened : Position) (segments : List Segment)
    {main : List Statement} {inverse : Option Program} {rest : List Segment}
    (h : sectionsOf name opened segments = .ok (main, inverse, rest)) :
    ∃ parts, Reads segments parts rest ∧ IsSections name parts main inverse := by
  rw [sectionsOf_eq] at h
  obtain ⟨⟨first, ending, left⟩, hfirst, h⟩ := bind_eq_ok.mp h
  have := length_of_bodyOf hfirst
  obtain ⟨parts, hreads, hderived, _⟩ := derived_bodyOf segments hfirst
  dsimp only at h
  cases ending with
  | eof => cases h
  | close closed position =>
    dsimp only at h
    split at h
    · subst closed
      cases h
      exact ⟨_, hreads, .closed hderived⟩
    · cases h
  | otherwise chain position =>
    simp only [Ending.cost] at this
    cases chain with
    | none =>
      obtain ⟨⟨second, ending, last⟩, hsecond, h⟩ := bind_eq_ok.mp h
      obtain ⟨more, hmore, hbody, _⟩ := derived_bodyOf left hsecond
      dsimp only at h
      cases ending with
      | eof => cases h
      | otherwise => cases h
      | close closed position =>
        dsimp only at h
        split at h
        · subst closed
          cases h
          refine ⟨_, ?_, .otherwise hderived hbody⟩
          simpa only [List.append_assoc, List.cons_append, Ending.parts, List.nil_append]
            using hreads.trans hmore
        · cases h
    | some call =>
      obtain ⟨⟨body, inverse, last⟩, hchained, h⟩ := bind_eq_ok.mp h
      cases h
      obtain ⟨more, hmore, hsections⟩ := derived_sectionsOf name position left hchained
      refine ⟨_, ?_, .chain call hderived hsections⟩
      simpa only [List.append_assoc, List.cons_append, Ending.parts, List.nil_append]
        using hreads.trans hmore
termination_by (segments.length, 1)

end

/-! ## 5. What is derived is read -/

/-- The first part decides how a body is read, and the other parts are behind it. -/
theorem Reads.step {segments rest : List Segment} {part : Part} {parts : List Part}
    (h : Reads segments (part :: parts) rest) :
    ∃ position middle, bodyOf segments = bodyAfter position middle part ∧ Reads middle parts rest := by
  cases h with
  | @cons segment _ middle _ _ first behind =>
    refine ⟨segment.position, middle, ?_, behind⟩
    rw [bodyOf_cons, first]
    rfl

mutual

/-- **A derived body is read**, and the reader goes on behind it. -/
theorem bodyOf_derived {parts : List Part} {body : List Statement} (h : IsBody parts body)
    {segments rest left : List Segment} {behind : List Statement} {ending : Ending}
    (hreads : Reads segments parts rest) (hbehind : bodyOf rest = .ok (behind, ending, left)) :
    bodyOf segments = .ok (body ++ behind, ending, left) := by
  cases h with
  | nil =>
    cases hreads
    exact hbehind
  | content text more =>
    obtain ⟨position, middle, hstep, hmore⟩ := hreads.step
    rw [hstep]
    exact bodyBehind_eq_ok.mpr ⟨_, bodyOf_derived more hmore hbehind, rfl⟩
  | comment more =>
    obtain ⟨position, middle, hstep, hmore⟩ := hreads.step
    rw [hstep]
    exact bodyOf_derived more hmore hbehind
  | mustache call escaped more =>
    obtain ⟨position, middle, hstep, hmore⟩ := hreads.step
    rw [hstep]
    exact bodyBehind_eq_ok.mpr ⟨_, bodyOf_derived more hmore hbehind, rfl⟩
  | partialTemplate head more =>
    obtain ⟨position, middle, hstep, hmore⟩ := hreads.step
    rw [hstep]
    exact bodyBehind_eq_ok.mpr ⟨_, bodyOf_derived more hmore hbehind, rfl⟩
  | partialBlock head nested more =>
    obtain ⟨position, middle, hstep, hinner⟩ := hreads.step
    change Reads middle (_ ++ _ :: _) rest at hinner
    rw [List.append_cons] at hinner
    obtain ⟨after, hnested, hmore⟩ := hinner.split
    rw [hstep]
    refine bind_eq_ok.mpr ⟨_, sectionsOf_derived (.closed nested) position hnested, ?_⟩
    exact bodyBehind_eq_ok.mpr ⟨_, bodyOf_derived more hmore hbehind, rfl⟩
  | block inverted call params nested more =>
    obtain ⟨position, middle, hstep, hinner⟩ := hreads.step
    obtain ⟨after, hnested, hmore⟩ := Reads.split hinner
    rw [hstep]
    refine bind_eq_ok.mpr ⟨_, sectionsOf_derived nested position hnested, ?_⟩
    exact bodyBehind_eq_ok.mpr ⟨_, bodyOf_derived more hmore hbehind, rfl⟩
termination_by parts.length

/-- **Derived sections are read**, up to their closing tag. -/
theorem sectionsOf_derived {name : String} {parts : List Part} {main : List Statement}
    {inverse : Option Program} (h : IsSections name parts main inverse) (opened : Position)
    {segments rest : List Segment} (hreads : Reads segments parts rest) :
    sectionsOf name opened segments = .ok (main, inverse, rest) := by
  rw [sectionsOf_eq]
  cases h with
  | closed first =>
    obtain ⟨middle, hfirst, hends⟩ := hreads.split
    obtain ⟨position, _, hstep, ⟨⟩⟩ := hends.step
    refine bind_eq_ok.mpr ⟨_, bodyOf_derived first hfirst hstep, ?_⟩
    dsimp only
    rw [if_pos rfl, List.append_nil]
    rfl
  | otherwise first second =>
    obtain ⟨_, hboth, hends⟩ := hreads.split
    obtain ⟨_, hfirst, helse⟩ := hboth.split
    obtain ⟨_, middle, hstep, hsecond⟩ := helse.step
    obtain ⟨position, _, hlast, ⟨⟩⟩ := hends.step
    refine bind_eq_ok.mpr ⟨_, bodyOf_derived first hfirst hstep, ?_⟩
    refine bind_eq_ok.mpr ⟨_, bodyOf_derived second hsecond hlast, ?_⟩
    dsimp only
    rw [if_pos rfl, List.append_nil, List.append_nil]
    rfl
  | chain call first chained =>
    obtain ⟨_, hfirst, helse⟩ := hreads.split
    obtain ⟨position, middle, hstep, hchained⟩ := helse.step
    refine bind_eq_ok.mpr ⟨_, bodyOf_derived first hfirst hstep, ?_⟩
    refine bind_eq_ok.mpr ⟨_, sectionsOf_derived chained position hchained, ?_⟩
    rw [List.append_nil]
    rfl
termination_by parts.length

end

/-- What the segments derive is what they are read to. -/
theorem Derives.ofSegments {segments : List Segment} {program : Program}
    (h : Derives segments program) : Program.ofSegments segments = .ok program := by
  obtain ⟨parts, hparts, hbody, hparams⟩ := h
  obtain ⟨body, params⟩ := program
  subst hparams
  have hwhole := bodyOf_derived hbody (Reads.iff_mapM.mpr hparts) bodyOf_nil
  obtain ⟨read, hread, he⟩ := map_eq_ok.mp hwhole
  refine bind_eq_ok.mpr ⟨read, hread, ?_⟩
  simp only [Prod.mk.injEq, List.append_nil] at he
  obtain ⟨rfl, hending, -⟩ := he
  rw [hending]
  rfl

/-- What the segments are read to is derived. -/
theorem derives_of_ofSegments {segments : List Segment} {program : Program}
    (h : Program.ofSegments segments = .ok program) : Derives segments program := by
  obtain ⟨read, hread, h⟩ := bind_eq_ok.mp h
  obtain ⟨parts, hreads, hbody, heof⟩ := derived_bodyOf segments (map_eq_ok.mpr ⟨read, hread, rfl⟩)
  cases hending : read.ending with
  | close => rw [hending] at h; cases h
  | otherwise => rw [hending] at h; cases h
  | eof =>
    rw [heof hending, hending] at hreads
    rw [hending] at h
    cases h
    exact ⟨parts, Reads.iff_mapM.mp (by simpa only [Ending.parts, List.append_nil] using hreads), hbody,
      rfl⟩

/-- **The template is accepted with a tree if and only if its segments derive the tree**, and they derive
    no other. -/
theorem ofSegments_iff_derives (segments : List Segment) (program : Program) :
    (Program.ofSegments segments = .ok program ↔ Derives segments program) ∧
      ∀ other, Derives segments program ∧ Derives segments other → other = program := by
  refine ⟨⟨derives_of_ofSegments, Derives.ofSegments⟩, ?_⟩
  rintro other ⟨hone, hother⟩
  exact Except.ok.inj (hother.ofSegments.symm.trans hone.ofSegments)

end Stache
