import Mathlib.Data.List.Nodup
import Mathlib.Data.List.Perm.Subperm
import Stache.Proofs.Spec.Binding
import Stache.Proofs.Spec.Numbering
import Stache.Proofs.Spec.Sections
import Stache.Proofs.Text.Called

/-!
# Announced block parameters

A section that declares block parameters reads them by their place, so that its call has to announce how many
there are. It does so for the main sections of blocks only.

* `programsIn_eq` -- the programs that code mentions are those that it calls;
* `sections_called` -- each section is called once, and announced as its head says;
* `declared_value` to `declared_own` -- what a path begins at is declared in its scope;
* `fair_body` -- what a partial wraps declares no block parameters;
* `sections_announced` -- **what a section reads is declared, and announced unless an inverse declares it**;
* `inverse_unannounced` -- an inverted section reads a block parameter that its call does not announce.
-/

namespace Stache

open Dialogue (always)
open Text (IsArgument Mention argumentsHere? argumentsIn calledWith leadingNumber mention? mentionsIn programMark)

/-! ## 1. What sections are called with -/

/-- What a program is called with when so many block parameters are announced. -/
def argumentsText (number params : Nat) : String :=
  toString number ++ ", data, " ++ toString params ++ ", blockParams, depths"

theorem programText_eq (number params : Nat) :
    programText number params = "container.program(" ++ argumentsText number params ++ ")" := by
  have back : ", blockParams, depths)" = ", blockParams, depths" ++ ")" := by decide +kernel
  have hcall : programText number params =
      "container.program(" ++ toString number ++ ", data, " ++ toString params ++
        (", blockParams, depths" ++ ")") :=
    congrArg (_ ++ ·) back
  rw [hcall, argumentsText]
  simp only [String.append_assoc]

theorem toList_programText (number params : Nat) :
    (programText number params).toList = programMark ++ ((argumentsText number params).toList ++ [')']) := by
  have front : "container.program(".toList = programMark := String.toList_ofList
  have bracket : ")".toList = [')'] := String.toList_ofList
  rw [programText_eq, String.toList_append, String.toList_append, front, bracket, List.append_assoc]

theorem isDigit_of_mem_toString {c : Char} {n : Nat} (h : c ∈ (toString n).toList) : c.isDigit = true := by
  rw [Nat.toString_eq_repr, Nat.toList_repr] at h
  exact Nat.isDigit_of_mem_toDigits (by decide) (by decide) h

theorem isArgument_argumentsText (number params : Nat) : IsArgument (argumentsText number params).toList := by
  have figures (n : Nat) : IsArgument (toString n).toList := by
    intro c hc
    have hdigit := isDigit_of_mem_toString hc
    refine ⟨?_, ?_, ?_⟩
    all_goals
      rintro rfl
      cases hdigit
  have between : IsArgument ", data, ".toList := Text.isArgument_ofList rfl
  have back : IsArgument ", blockParams, depths".toList := Text.isArgument_ofList rfl
  simp only [IsArgument, argumentsText, String.toList_append, List.forall_mem_append]
  exact ⟨⟨⟨figures number, between⟩, figures params⟩, back⟩

theorem leadingNumber_argumentsText (number params : Nat) :
    leadingNumber (argumentsText number params).toList = number := by
  have comma : ", data, ".toList = [',', ' ', 'd', 'a', 't', 'a', ',', ' '] := String.toList_ofList
  have htake : (argumentsText number params).toList.takeWhile Char.isDigit = (toString number).toList := by
    simp only [argumentsText, String.toList_append, comma, List.append_assoc]
    rw [List.takeWhile_append_of_pos fun c hc => isDigit_of_mem_toString hc, List.cons_append,
      List.takeWhile_cons_of_neg (by decide), List.append_nil]
  rw [leadingNumber, htake, Nat.toString_eq_repr, Nat.toList_repr, Nat.ofDigitChars_ten_toDigits]

/-- What is mentioned as a program is called. -/
theorem filterMap_mentionsIn (code : List Char) :
    (mentionsIn code).filterMap Mention.number? = (argumentsIn code).map leadingNumber := by
  induction code with
  | nil => rfl
  | cons c code ih =>
    rw [mentionsIn, argumentsIn, List.filterMap_append, List.map_append, ih]
    refine congrArg (· ++ _) ?_
    rw [mention?, argumentsHere?]
    cases afterMark : Text.afterMark? programMark (c :: code) with
    | some rest => exact congrArg (fun n => [n]) (Text.leadingNumber_takeWhile rest).symm
    | none =>
      dsimp only
      split
      · rfl
      · split
        · rfl
        · rfl

/-- **The programs that code mentions are those that it calls**, in the same order. -/
theorem programsIn_eq (code : String) :
    programsIn code = (calledWith code).map fun arguments => leadingNumber arguments.toList := by
  rw [programsIn, calledWith, Text.mentions, Text.mentions?, Text.arguments?, List.map_map]
  cases Text.Parts.read? code.toList with
  | none => rfl
  | some parts =>
    show (parts.outside.flatMap mentionsIn).filterMap _ = (parts.outside.flatMap argumentsIn).map _
    rw [List.filterMap_flatMap, List.map_flatMap]
    refine congrArg (parts.outside.flatMap ·) (funext fun code => ?_)
    rw [filterMap_mentionsIn]
    exact List.map_congr_left fun arguments _ => by rw [Function.comp_apply, String.toList_ofList]

/-- The programs that a piece of code mentions are those that are summed up. -/
theorem SaysBefore.programsIn_eq {s : Mentioned} {code : String} (h : SaysBefore s code) :
    programsIn code = s.programs :=
  congrArg Mentioned.programs h.of_mentions

/-! ## 2. Sections are called once -/

/-- What a compilation ends with when all references are left as they are. -/
theorem compilation_code {hints : Hints} {source code : String}
    (h : ((compilation hints source).run leaveAll ()).1 = .ok code) :
    ∃ program, Program.parse source = .ok program ∧
      (linesOutline (linesOf hints [] program.body)).fault = none ∧
      code = ((program.spec hints).fill Reference.default).specText := by
  have hfault := (asks_compilation hints source).fault_eq_none h
  cases hparse : Program.parse source with
  | error error =>
    rw [compilationOutline, hparse] at hfault
    cases hfault
  | ok program =>
    have hrun := (Program.spec_gives (fun _ => none) hparse hfault).run_eq ()
    rw [compilationOutline, hparse] at hfault
    exact ⟨program, rfl, hfault, Except.ok.inj (h.symm.trans (congrArg Prod.fst hrun))⟩

/-- The programs that the code of a template mentions are numbered from one. -/
theorem programsIn_specText {hints : Hints} {body : List Statement} (hp : statementsPlain body)
    (hf : (linesOutline (linesOf hints [] body)).fault = none) :
    let spec := BodyOf.specText ⟨linesFill Reference.default (linesOf hints [] body), []⟩
    (Text.mentions? spec.toList).isSome = true ∧ (programsIn spec).Perm (List.range' 1
      (writtenLines 1 (linesFill Reference.default (linesOf hints [] body))).functions.length) := by
  intro spec
  let lines := linesFill Reference.default (linesOf hints [] body)
  obtain ⟨own, functions, hown, hfunctions, hlaid⟩ := laid_lines hints [] body hp hf 1
  have hspec : SaysBefore (functions.foldr (· ++ ·) Mentioned.nothing ++ own) spec :=
    (says_specOf hfunctions (says_functionText hown).before (linesNeeds lines)).before
  have hsum : programsIn spec = functions.flatMap (·.programs) ++ own.programs := by
    rw [hspec.programsIn_eq, ← programs_foldr]
    rfl
  refine ⟨hspec.reads, ?_⟩
  rw [hsum, ← hfunctions.length_eq]
  exact List.perm_append_comm.trans hlaid.once

/-- Sections that are numbered are called with different arguments. -/
theorem nodup_arguments (sections : List Section) (next : Nat) :
    ((sections.zipIdx next).map fun s => argumentsText s.2 s.1.head.announced).Nodup := by
  refine List.Nodup.of_map (fun arguments => leadingNumber arguments.toList) ?_
  have hnumbers : ((sections.zipIdx next).map fun s => argumentsText s.2 s.1.head.announced).map
      (fun arguments => leadingNumber arguments.toList) = List.range' next sections.length := by
    rw [List.map_map, ← List.zipIdx_map_snd]
    refine List.map_congr_left fun s _ => ?_
    rw [Function.comp_apply, leadingNumber_argumentsText]
  rw [hnumbers]
  exact List.nodup_range'

/-- **Each section is called once**, by its number, with the block parameters that are announced for it. -/
theorem sections_called {hints : Hints} {source code : String}
    (h : ((compilation hints source).run leaveAll ()).1 = .ok code) :
    ∃ program needs, Program.parse source = .ok program ∧
      code = specOf ((program.sections.zipIdx 1).map fun s => s.1.function hints Reference.default s.2)
        (bodyFunction hints Reference.default [] 0 program.body) needs ∧
      (calledWith code).Perm
        ((program.sections.zipIdx 1).map fun s => argumentsText s.2 s.1.head.announced) := by
  obtain ⟨program, hparse, hfault, rfl⟩ := compilation_code h
  let lines := linesOf hints [] program.body
  let spec := BodyOf.specText ⟨linesFill Reference.default lines, []⟩
  let expected := (program.sections.zipIdx 1).map fun s => argumentsText s.2 s.1.head.announced
  have hplain := plain_parse source program hparse
  have hlines : linesPlain (program.spec hints).lines := plain_linesOf hints [] program.body hplain
  have ha : AnswersSound (σ := Unit) (always fun _ => none) := nofun
  have hplaced : Placed hints Reference.default program.sections 1
      (writtenLines 1 (linesFill Reference.default lines)).own
      (writtenLines 1 (linesFill Reference.default lines)).functions :=
    placed_body hints ha [] program.body hplain hfault 1
  obtain ⟨hreads, hnumbers⟩ := programsIn_specText hplain hfault
  refine ⟨program, linesNeeds (linesFill Reference.default lines), hparse, ?_, ?_⟩
  · rw [← hplaced.functions_eq]
    rfl
  · show (calledWith spec).Perm expected
    -- the expected calls are different, they all stand in the code, and it has no more calls than sections
    have hsub : expected ⊆ calledWith spec := by
      intro arguments hm
      obtain ⟨s, hs, rfl⟩ := List.mem_map.mp hm
      obtain ⟨text, ht, hstands⟩ := hplaced.called s hs
      have hspec := hstands.trans (BodyOf.stands_written ha hlines hfault text ht)
      have := Text.mem_calledWith_of_stands (isArgument_argumentsText _ _) (toList_programText _ _) hspec hreads
      rwa [String.ofList_toList] at this
    have hlength : (calledWith spec).length ≤ expected.length := by
      have := hnumbers.length_eq
      rw [programsIn_eq, List.length_map, List.length_range', hplaced.length_eq] at this
      rw [this, List.length_map, List.length_zipIdx]
    exact ((List.subperm_of_subset (nodup_arguments _ 1) hsub).perm_of_length_le hlength).symm

/-! ## 3. Block parameters are declared -/

/-- If the lookups of a path begin at a block parameter, then the body so many levels up declares it. -/
def PathCode.Declared (scope : Scope) (e : PathCode) : Prop :=
  ∀ level slot, e.base = .parameter level slot → ∃ params, scope[level]? = some params ∧ slot < params.length

theorem PathCode.declared_of_base {scope : Scope} {e : PathCode}
    (h : ∀ level slot, e.base ≠ .parameter level slot) : e.Declared scope :=
  fun level slot hbase => absurd hbase (h level slot)

theorem declared_chain (scope : Scope) (l : Lookup) : PathCode.Declared scope (.chain (l.chain scope)) := by
  intro level slot hbase
  by_cases hname : ∃ name rest, l.Begins name rest
  · obtain ⟨name, rest, hbegins⟩ := hname
    obtain ⟨params, hparams, hslot, _⟩ := ((Lookup.Begins.base_chain hbegins).mp hbase).declared
    obtain ⟨hlt, _⟩ := List.getElem?_eq_some_iff.mp hslot
    exact ⟨params, hparams, hlt⟩
  · have hother := (obeyed_chain ⟨false, ∅⟩ scope l .value).other fun name rest h => hname ⟨name, rest, h⟩
    exact absurd hbase (hother level slot)

section Declared

variable (hints : Hints)

mutual

theorem declared_value (scope : Scope) : ∀ e : Expr, ∀ c ∈ (e.value hints scope).pathCodes, c.Declared scope
  | .lookup l, c, hm => by
    cases List.mem_singleton.mp hm
    exact declared_chain scope l
  | .str _, _, hm => by cases hm
  | .num _, _, hm => by cases hm
  | .bool _, _, hm => by cases hm
  | .null, _, hm => by cases hm
  | .undefined, _, hm => by cases hm
  | .sub call, c, hm => declared_invocation scope true call c hm

/-- **What a call looks up begins where its scope says**, whatever the callee is treated as. -/
theorem declared_invocation (scope : Scope) (isSub : Bool) : ∀ call : CallOf Expr,
    ∀ c ∈ InvocationOf.pathCodes (Call.invocation hints scope isSub call), c.Declared scope
  | ⟨callee, params, hash, position⟩, c, hm => by
    have arguments : ∀ c ∈ paramsPathCodes (paramValues hints scope params) ++
        hashPathCodes (hashValues hints scope hash), c.Declared scope :=
      List.forall_mem_append.mpr ⟨declared_params scope params, declared_hash scope hash⟩
    simp only [Call.invocation] at hm
    cases hkind : Call.calleeKind hints scope isSub ⟨callee, params, hash, position⟩ with
    | helper name =>
      rw [hkind] at hm
      rcases List.mem_cons.mp hm with rfl | hm
      · exact PathCode.declared_of_base fun level slot hbase => by cases hbase
      · exact arguments c hm
    | ambiguous name =>
      rw [hkind] at hm
      cases List.mem_singleton.mp hm
      exact PathCode.declared_of_base fun level slot hbase => by cases hbase
    | value =>
      rw [hkind, mannerOf] at hm
      split at hm
      · rcases List.mem_append.mp hm with hm | hm
        · exact declared_value scope callee c hm
        · exact arguments c hm
      · exact declared_value scope callee c hm
    | refused name =>
      rw [hkind] at hm
      cases hm

theorem declared_params (scope : Scope) : ∀ params : List Expr,
    ∀ c ∈ paramsPathCodes (paramValues hints scope params), c.Declared scope
  | [], _, hm => by cases hm
  | param :: params, c, hm => by
    rcases List.mem_append.mp hm with hm | hm
    · exact declared_value scope param c hm
    · exact declared_params scope params c hm

theorem declared_hash (scope : Scope) : ∀ hash : List (String × Expr),
    ∀ c ∈ hashPathCodes (hashValues hints scope hash), c.Declared scope
  | [], _, hm => by cases hm
  | (_, value) :: hash, c, hm => by
    rcases List.mem_append.mp hm with hm | hm
    · exact declared_value scope value c hm
    · exact declared_hash scope hash c hm

end

/-- So it is with all that a line looks up itself. -/
theorem declared_own (scope : Scope) (s : Statement) {line : LineOf Reference} (hl : line ∈ s.line? hints scope) :
    ∀ c ∈ line.ownPathCodes, c.Declared scope := by
  intro c hm
  cases s with
  | content text =>
    simp only [Statement.line?, chunkLine?] at hl
    split at hl
    · cases hl
    · cases hl
      cases hm
  | mustache call escaped =>
    cases escaped with
    | true =>
      cases hl
      exact declared_invocation hints scope false call c hm
    | false =>
      cases hl
      exact declared_invocation hints scope false call c hm
  | block call main inverse =>
    cases hl
    exact declared_invocation hints scope false call c hm
  | partialTemplate name context hash fallback =>
    cases hl
    rcases List.mem_append.mp hm with hm | hm
    · cases name with
      | sub call => exact declared_invocation hints scope true call c hm
      | _ => cases hm
    rcases List.mem_append.mp hm with hm | hm
    · cases context with
      | none => cases hm
      | some e => exact declared_value hints scope e c hm
    · exact declared_hash hints scope hash c hm

theorem declared_linesOf (scope : Scope) (body : List Statement) :
    ∀ c ∈ (linesOf hints scope body).flatMap LineOf.ownPathCodes, c.Declared scope := by
  induction body with
  | nil =>
    intro c hm
    cases hm
  | cons s body ih =>
    intro c hm
    rw [linesOf, List.flatMap_append] at hm
    rcases List.mem_append.mp hm with hm | hm
    · obtain ⟨line, hl, hm⟩ := List.mem_flatMap.mp hm
      exact declared_own hints scope s (Option.mem_toList.mp hl) c hm
    · exact ih c hm

end Declared

/-! ## 4. What partials wrap -/

/-- What a partial wraps declares no block parameters. -/
def SectionHead.Fair (head : SectionHead) : Prop :=
  head.role = .fallback → head.params = []

/-- A fair head is announced as it is, unless it is the head of an inverse. -/
theorem SectionHead.Fair.announced_eq {head : SectionHead} (h : head.Fair) (hr : head.role ≠ .inverse) :
    head.announced = head.params.length := by
  unfold SectionHead.announced
  cases hrole : head.role with
  | main => rfl
  | inverse => exact absurd hrole hr
  | fallback => rw [h hrole, List.length_nil]

/-- All heads of the sections in statements are fair, if those around them are. -/
def FairIn (body : List Statement) : Prop :=
  ∀ outer, (∀ head ∈ outer, head.Fair) → ∀ s ∈ bodySections outer body, ∀ head ∈ s.heads, head.Fair

/-- The same for a section, if its own head is fair. -/
def FairSection (body : Option Program) : Prop :=
  ∀ role outer, (∀ program ∈ body, SectionHead.Fair ⟨role, program.blockParams⟩) →
    (∀ head ∈ outer, head.Fair) → ∀ s ∈ sectionsFrom role outer body, ∀ head ∈ s.heads, head.Fair

theorem FairSection.none : FairSection none := by
  intro role outer _ _ s hs
  cases hs

theorem FairIn.section {body : List Statement} (h : FairIn body) (params : List String) :
    FairSection (some ⟨body, params⟩) := by
  intro role outer hr hall s hs
  have heads : ∀ head ∈ (⟨role, params⟩ : SectionHead) :: outer, head.Fair :=
    List.forall_mem_cons.mpr ⟨hr _ rfl, hall⟩
  rcases List.mem_cons.mp hs with rfl | hs
  · exact heads
  · exact h _ heads s hs

/-- Only what a partial wraps can have a head that is not fair. -/
theorem SectionHead.fair_of_role {role : SectionRole} (h : role ≠ .fallback) (params : List String) :
    SectionHead.Fair ⟨role, params⟩ :=
  fun hr => absurd hr h

namespace FairIn

variable {body : List Statement}

theorem nil : FairIn [] := by
  intro outer _ s hs
  cases hs

/-- A statement without sections. -/
theorem plain {statement : Statement} (hp : ∀ outer, statement.sections outer = []) (h : FairIn body) :
    FairIn (statement :: body) := by
  intro outer hall s hs
  rw [bodySections, hp] at hs
  exact h outer hall s hs

theorem block {call : Call} {main inverse : Option Program} (hm : FairSection main) (hi : FairSection inverse)
    (h : FairIn body) : FairIn (.block call main inverse :: body) := by
  intro outer hall s hs
  rcases List.mem_append.mp hs with hs | hs
  · rcases List.mem_append.mp hs with hs | hs
    · exact hm .main outer (fun program _ => SectionHead.fair_of_role (by decide) _) hall s hs
    · exact hi .inverse outer (fun program _ => SectionHead.fair_of_role (by decide) _) hall s hs
  · exact h outer hall s hs

theorem partialTemplate {name : Expr} {context : Option Expr} {hash : List (String × Expr)}
    {fallback : List Statement} (hf : FairIn fallback) (h : FairIn body) :
    FairIn (.partialTemplate name context hash (some ⟨fallback, []⟩) :: body) := by
  intro outer hall s hs
  have fair : ∀ program ∈ some (⟨fallback, []⟩ : Program), SectionHead.Fair ⟨.fallback, program.blockParams⟩ := by
    intro program hp _
    cases hp
    rfl
  rcases List.mem_append.mp hs with hs | hs
  · exact hf.section [] .fallback outer fair hall s hs
  · exact h outer hall s hs

end FairIn

mutual

/-- The sections in what the grammar derives are fair. -/
theorem fair_body {parts : List Part} {body : List Statement} (h : IsBody parts body) : FairIn body := by
  cases h with
  | nil => exact .nil
  | content text more => exact .plain (fun _ => rfl) (fair_body more)
  | comment more => exact fair_body more
  | mustache call escaped more => exact .plain (fun _ => rfl) (fair_body more)
  | partialTemplate head more => exact .plain (fun _ => rfl) (fair_body more)
  | partialBlock head nested more => exact .partialTemplate (fair_body nested) (fair_body more)
  | block inverted call params nested more =>
    obtain ⟨hmain, hinverse⟩ := fair_sections nested
    unfold blockStatement
    split
    · exact .block hinverse (hmain.section params) (fair_body more)
    · exact .block (hmain.section params) hinverse (fair_body more)
termination_by parts.length

theorem fair_sections {name : String} {parts : List Part} {main : List Statement} {inverse : Option Program}
    (h : IsSections name parts main inverse) : FairIn main ∧ FairSection inverse := by
  cases h with
  | closed first => exact ⟨fair_body first, .none⟩
  | otherwise first second => exact ⟨fair_body first, (fair_body second).section []⟩
  | chain call first chained =>
    obtain ⟨hmain, hinverse⟩ := fair_sections chained
    exact ⟨fair_body first, (FairIn.block (hmain.section []) hinverse .nil).section []⟩
termination_by parts.length

end

/-- **What a partial wraps declares no block parameters**, in every template that is accepted. -/
theorem fair_sections_of_parse {source : String} {program : Program} (h : Program.parse source = .ok program) :
    ∀ s ∈ program.sections, ∀ head ∈ s.heads, head.Fair := by
  obtain ⟨segments, _, hsegments⟩ := bind_eq_ok.mp h
  obtain ⟨parts, _, hbody, _⟩ := derives_of_ofSegments hsegments
  have none : ∀ head ∈ ([] : List SectionHead), head.Fair := by
    intro head hm
    cases hm
  exact fair_body hbody [] none

/-! ## 5. The whole template -/

/-- **The sections of a template.** If all references are left as they are, the functions of an accepted template
    are those of its sections, in the order of their numbers, and the code calls each of them once, by its number.
    The call announces as many block parameters as the section declares, unless it is the inverse of a block and
    declares any. Where a section reads a block parameter, the section so many levels up declares it, and its call
    announces it unless that is an inverse. -/
theorem sections_announced {hints : Hints} {source code : String}
    (h : ((compilation hints source).run leaveAll ()).1 = .ok code) :
    ∃ program needs, Program.parse source = .ok program ∧
      code = specOf ((program.sections.zipIdx 1).map fun s => s.1.function hints Reference.default s.2)
        (bodyFunction hints Reference.default [] 0 program.body) needs ∧
      (calledWith code).Perm
        ((program.sections.zipIdx 1).map fun s => argumentsText s.2 s.1.head.announced) ∧
      (∀ s ∈ program.sections, s.head.announced = s.head.params.length ↔
        (s.head.role = .inverse → s.head.params = [])) ∧
      ∀ s ∈ program.sections, ∀ c ∈ s.pathCodes hints, ∀ level slot, c.base = .parameter level slot →
        ∃ head, s.heads[level]? = some head ∧ slot < head.params.length ∧
          (head.role ≠ .inverse → slot < head.announced) := by
  obtain ⟨program, needs, hparse, hcode, hcalled⟩ := sections_called h
  have hfair := fair_sections_of_parse hparse
  refine ⟨program, needs, hparse, hcode, hcalled, fun s hs => ?_, fun s hs c hc level slot hbase => ?_⟩
  · have hhead : s.head.Fair := hfair s hs s.head List.mem_cons_self
    by_cases hrole : s.head.role = .inverse
    · have hnone : s.head.announced = 0 := by rw [SectionHead.announced, hrole]
      rw [hnone, eq_comm, List.length_eq_zero_iff]
      exact ⟨fun hp _ => hp, fun hp => hp hrole⟩
    · exact iff_of_true (hhead.announced_eq hrole) fun hr => absurd hr hrole
  · obtain ⟨params, hparams, hslot⟩ := declared_linesOf hints s.scope s.body c hc level slot hbase
    rw [Section.scope, List.getElem?_map, Option.map_eq_some_iff] at hparams
    obtain ⟨head, hhead, rfl⟩ := hparams
    refine ⟨head, hhead, hslot, fun hrole => ?_⟩
    rwa [(hfair s hs head (List.mem_of_getElem? hhead)).announced_eq hrole]

/-! ## 6. An inverted section with a block parameter -/

/-- An inverted section that declares a block parameter and reads it. -/
def unannouncedSource : String := "\x7b\x7b^x as |a|\x7d\x7d\x7b\x7ba\x7d\x7d\x7b\x7b/x\x7d\x7d"

/-- A name alone is called without arguments. -/
theorem ofTokens_name (position : Position) (name : String) : Call.ofTokens position [.id name] =
    .ok ⟨.lookup (.ofNames false 0 [name] name), [], [], position⟩ := by
  rw [Call.ofTokens, readCall, if_neg (List.cons_ne_nil _ _), readExpr]
  show (do
    let arguments ← readArguments position false []
    _) >>= _ = _
  rw [readArguments]
  rfl

theorem scan_unannounced : scan unannouncedSource =
    .ok [.tag ⟨.inverse, [.id "x", .id "as", .pipe, .id "a", .pipe], .start⟩,
      .tag ⟨.escaped, [.id "a"], ⟨1, 14⟩⟩, .tag ⟨.close, [.id "x"], ⟨1, 19⟩⟩] := by
  have tokens : Token.tokenize ['x', ' ', 'a', 's', ' ', '|', 'a', '|'] =
      .ok [.id "x", .id "as", .pipe, .id "a", .pipe] := eq_ok_of_toOption (by decide +kernel)
  have name : Token.tokenize ['a'] = .ok [.id "a"] := Token.tokenize_word (by decide)
  have close : Token.tokenize ['x'] = .ok [.id "x"] := Token.tokenize_word (by decide)
  have pieces : pieces unannouncedSource.toList =
      [.tag ⟨.inverse, false, false, ['x', ' ', 'a', 's', ' ', '|', 'a', '|']⟩ .start,
        .tag ⟨.escaped, false, false, ['a']⟩ ⟨1, 14⟩, .tag ⟨.close, false, false, ['x']⟩ ⟨1, 19⟩] := by
    decide +kernel
  rw [scan, pieces]
  simp only [Segment.ofPieces, Segment.readTag, tokens, name, close]
  rfl

/-- A block with an inverse only. -/
def unannouncedProgram : Program :=
  ⟨[.block ⟨.lookup (.ofNames false 0 ["x"] "x"), [], [], .start⟩ none
    (some ⟨[.mustache ⟨.lookup (.ofNames false 0 ["a"] "a"), [], [], ⟨1, 14⟩⟩ true], ["a"]⟩)], []⟩

theorem parse_unannounced : Program.parse unannouncedSource = .ok unannouncedProgram := by
  have opened : (Segment.tag ⟨.inverse, [.id "x", .id "as", .pipe, .id "a", .pipe], .start⟩).part =
      .ok (.block true ⟨.lookup (.ofNames false 0 ["x"] "x"), [], [], .start⟩ ["a"]) := by
    show ((do
      let call ← Call.ofTokens .start [.id "x"]
      _) : Except Fault Part).mapError _ = _
    rw [ofTokens_name]
    rfl
  have named : (Segment.tag ⟨.escaped, [.id "a"], ⟨1, 14⟩⟩).part =
      .ok (.mustache ⟨.lookup (.ofNames false 0 ["a"] "a"), [], [], ⟨1, 14⟩⟩ true) := by
    show ((Call.ofTokens ⟨1, 14⟩ [.id "a"]).map fun call => Part.mustache call true).mapError _ = _
    rw [ofTokens_name]
    rfl
  have parts : [Segment.tag ⟨.inverse, [.id "x", .id "as", .pipe, .id "a", .pipe], .start⟩,
      .tag ⟨.escaped, [.id "a"], ⟨1, 14⟩⟩, .tag ⟨.close, [.id "x"], ⟨1, 19⟩⟩].mapM Segment.part =
      .ok [.block true ⟨.lookup (.ofNames false 0 ["x"] "x"), [], [], .start⟩ ["a"],
        .mustache ⟨.lookup (.ofNames false 0 ["a"] "a"), [], [], ⟨1, 14⟩⟩ true, .close "x"] := by
    simp only [List.mapM_cons, List.mapM_nil, opened, named]
    rfl
  rw [Program.parse, scan_unannounced]
  exact Derives.ofSegments ⟨_, parts, .block true _ ["a"] (.closed (.mustache _ _ .nil)) .nil, rfl⟩

theorem run_unannounced : ∃ code, ((compilation ⟨false, ∅⟩ unannouncedSource).run leaveAll ()).1 = .ok code := by
  have hend := (asks_compilation ⟨false, ∅⟩ unannouncedSource).run_eq leaveAll ()
  have hfault : (compilationOutline ⟨false, ∅⟩ unannouncedSource).fault = none := by
    rw [compilationOutline, parse_unannounced]
    rfl
  rwa [hfault] at hend

/-- What the section reads is declared, and its call is the only one. -/
theorem sections_announced_inverted : ∃ code program,
    ((compilation ⟨false, ∅⟩ unannouncedSource).run leaveAll ()).1 = .ok code ∧
    Program.parse unannouncedSource = .ok program ∧
    (calledWith code).Perm ((program.sections.zipIdx 1).map fun s => argumentsText s.2 s.1.head.announced) ∧
    ∀ s ∈ program.sections, ∀ c ∈ s.pathCodes ⟨false, ∅⟩, ∀ level slot, c.base = .parameter level slot →
      ∃ head, s.heads[level]? = some head ∧ slot < head.params.length := by
  obtain ⟨code, hcode⟩ := run_unannounced
  obtain ⟨program, _, hparse, _, hcalled, _, hslots⟩ := sections_announced hcode
  refine ⟨code, program, hcode, hparse, hcalled, fun s hs c hc level slot hbase => ?_⟩
  obtain ⟨head, hhead, hslot, _⟩ := hslots s hs c hc level slot hbase
  exact ⟨head, hhead, hslot⟩

/-- **The call of an inverted section announces no block parameters**, though it declares one and reads it. -/
theorem inverse_unannounced : ∃ code program s,
    ((compilation ⟨false, ∅⟩ unannouncedSource).run leaveAll ()).1 = .ok code ∧
    Program.parse unannouncedSource = .ok program ∧ program.sections = [s] ∧ s.head.params = ["a"] ∧
    calledWith code = ["1, data, 0, blockParams, depths"] ∧
    (s.pathCodes ⟨false, ∅⟩).map PathCode.base = [.parameter 0 0] := by
  obtain ⟨code, hcode⟩ := run_unannounced
  obtain ⟨program, needs, hparse, _, hcalled⟩ := sections_called hcode
  cases parse_unannounced.symm.trans hparse
  refine ⟨code, unannouncedProgram, _, hcode, hparse, rfl, rfl, ?_, rfl⟩
  have harguments : argumentsText 1 0 = "1, data, 0, blockParams, depths" := by decide +kernel
  rw [← harguments]
  exact List.perm_singleton.mp hcalled

end Stache
