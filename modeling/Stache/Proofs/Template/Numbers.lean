import Stache.Proofs.Spec.Plain
import Stache.Template.Blocks

/-!
# The numbers of a template

A number is made of an optional minus, digits and an optional fraction, so that every number that a template
is read with is a numeral: `plain_parse`. The fact is handed on from the tokens to the trees by every
reader.
-/

namespace Stache

open Text (IsFigures)

/-! ## 1. What a reader ensures -/

/-- What is read has a property, if anything is. -/
def Ensures {ε α : Type} (P : α → Prop) (x : Except ε α) : Prop :=
  ∀ a, x = .ok a → P a

namespace Ensures

variable {ε ε' α β : Type} {P : α → Prop} {Q : β → Prop}

theorem ofOk {a : α} (h : P a) : Ensures (ε := ε) P (.ok a) := by
  rintro _ ⟨⟩
  exact h

theorem ofError (e : ε) : Ensures P (.error e) := nofun

theorem bind {x : Except ε α} {f : α → Except ε β} (h : Ensures P x)
    (hf : ∀ a, P a → Ensures Q (f a)) : Ensures Q (x >>= f) := by
  cases x with
  | error e => exact nofun
  | ok a => exact hf a (h a rfl)

theorem ite {c : Prop} [Decidable c] {x y : Except ε α} (h : c → Ensures P x)
    (h' : ¬ c → Ensures P y) : Ensures P (if c then x else y) := by
  split
  · exact h ‹_›
  · exact h' ‹_›

theorem mapError {x : Except ε α} (h : Ensures P x) (f : ε → ε') : Ensures P (x.mapError f) := by
  cases x with
  | error e => exact nofun
  | ok a =>
    rintro _ ⟨⟩
    exact h a rfl

end Ensures

/-! ## 2. Tokens -/

/-- The spellings of the numbers among some tokens have a property. -/
def TokensSpelled (P : List Char → Prop) (tokens : List Token) : Prop :=
  ∀ spelling, .num spelling ∈ tokens → P spelling.toList

/-- The numbers among some tokens are numerals. -/
def TokensPlain (tokens : List Token) : Prop :=
  ∀ spelling, .num spelling ∈ tokens → IsFigures spelling.toList

namespace Token

theorem isFigures_takeWhile (text : List Char) : IsFigures (text.takeWhile Char.isDigit) :=
  fun c hc => .inl (List.all_eq_true.mp List.all_takeWhile c hc)

theorem isFigures_fraction (text : List Char) : IsFigures (fraction text) := by
  unfold fraction
  split
  · split
    · exact List.forall_mem_cons.mpr ⟨.inr (.inr rfl), isFigures_takeWhile _⟩
    · exact nofun
  · exact nofun

theorem isFigures_splitNumber? {text spelling rest : List Char}
    (h : splitNumber? text = some (spelling, rest)) : IsFigures spelling := by
  simp only [splitNumber?] at h
  split at h
  · cases h
    have hs : IsFigures (sign text) := by
      unfold sign
      split
      · exact List.forall_mem_cons.mpr ⟨.inr (.inl rfl), List.forall_mem_nil _⟩
      · exact List.forall_mem_nil _
    exact List.forall_mem_append.mpr ⟨hs,
      List.forall_mem_append.mpr ⟨isFigures_takeWhile _, isFigures_fraction _⟩⟩
  · cases h

theorem plain_ofWord (word rest : List Char) (spelling : String) :
    ofWord word rest ≠ .num spelling := by
  unfold ofWord
  repeat' split
  all_goals exact nofun

section Spelled

variable {P : List Char → Prop}
  (hsplit : ∀ {text spelling rest}, splitNumber? text = some (spelling, rest) → P spelling)

include hsplit in
/-- The token at the front of a text has the property that all have that are split off, if it is a number. -/
theorem spelled_front (joined : Bool) (c : Char) (text : List Char) :
    Ensures (fun f => TokensSpelled P f.token.toList) (front joined c text) := by
  have single {token : Token} (h : ∀ spelling, token = .num spelling → P spelling.toList) :
      TokensSpelled P (some token).toList :=
    fun spelling hm => h spelling (List.mem_singleton.mp hm).symm
  have word : TokensSpelled P (wordFront c text).token.toList :=
    single fun spelling e => absurd e (plain_ofWord _ _ spelling)
  unfold front
  refine .ite (fun _ => .ofOk fun _ hm => absurd hm List.not_mem_nil) fun _ => ?_
  iterate 6 refine .ite (fun _ => .ofOk (single nofun)) fun _ => ?_
  refine .ite (fun _ => ?_) fun _ => .ite (fun _ => ?_) fun _ => .ite (fun _ => ?_) fun _ =>
    .ite (fun _ => ?_) fun _ => .ite (fun _ => .ofOk word) fun _ => .ofError _
  · split
    · exact .ofOk (single nofun)
    · refine .ofOk (single fun spelling e => ?_)
      cases joined <;> cases e
  · split
    · exact .ofError _
    · exact .ofOk (single nofun)
  · split
    · exact .ofError _
    · exact .ofOk (single nofun)
  · split
    · rename_i spelling rest h
      refine .ofOk (single ?_)
      rintro _ ⟨⟩
      rw [String.toList_ofList]
      exact hsplit h
    · exact .ofOk word

include hsplit in
/-- **So have all numbers among the tokens of a tag.** -/
theorem spelled_readAll (joined : Bool) (text : List Char) :
    Ensures (TokensSpelled P) (readAll joined text) := by
  fun_induction readAll joined text with
  | case1 => exact .ofOk nofun
  | case2 joined c text ih =>
    refine .bind (spelled_front hsplit joined c text) fun f hf => ?_
    refine .bind (ih f) fun tokens ht => .ofOk fun spelling hm => ?_
    exact (List.mem_append.mp hm).elim (hf spelling) (ht spelling)

end Spelled

/-- **The numbers among the tokens of a tag are numerals.** -/
theorem plain_readAll (joined : Bool) (text : List Char) : Ensures TokensPlain (readAll joined text) :=
  spelled_readAll isFigures_splitNumber? joined text

end Token

/-! ## 3. Expressions -/

theorem TokensPlain.tail {token : Token} {tokens : List Token} (h : TokensPlain (token :: tokens)) :
    TokensPlain tokens :=
  fun spelling hm => h spelling (List.mem_cons_of_mem _ hm)

theorem plain_climb {tokens : List Token} (h : TokensPlain tokens) : TokensPlain (climb tokens).rest := by
  fun_induction climb tokens with
  | case1 mark tokens above ih => exact ih h.tail.tail
  | case2 tokens => exact h.tail
  | case3 tokens => exact h

theorem plain_readNames {tokens : List Token} (h : TokensPlain tokens) :
    Ensures (fun r => TokensPlain r.rest) (readNames tokens) := by
  fun_induction readNames tokens with
  | case1 name mark next tokens ih => exact .bind (ih h.tail.tail) fun _ hm => .ofOk hm
  | case2 name tokens => exact .ofOk h.tail
  | case3 => exact .ofError _

theorem plain_readBodyLookup (data : Bool) {tokens : List Token} (h : TokensPlain tokens) :
    Ensures (fun r => TokensPlain r.rest) (Lookup.readBody data tokens) := by
  unfold Lookup.readBody
  dsimp only
  split
  · exact .bind (plain_readNames (plain_climb h)) fun _ hn => .ofOk hn
  · exact .ofOk (plain_climb h)

theorem plain_readLookup {tokens : List Token} (h : TokensPlain tokens) :
    Ensures (fun r => r.value.Plain ∧ TokensPlain r.rest) (readLookup tokens) := by
  have hl : Ensures (fun r => TokensPlain r.rest) (Lookup.read tokens) := by
    unfold Lookup.read
    split
    · exact .bind (plain_readBodyLookup true h.tail) fun _ hb => .ofOk hb
    · exact plain_readBodyLookup false h
  exact .bind hl fun _ hr => .ofOk ⟨trivial, hr⟩

mutual

theorem plain_readExpr (position : Position) (tokens : List Token) (h : TokensPlain tokens) :
    Ensures (fun r => r.value.Plain ∧ TokensPlain r.rest) (readExpr position tokens) := by
  unfold readExpr
  split
  · exact .ofError _
  · exact .ofOk ⟨trivial, h.tail⟩
  · exact .ofOk ⟨h _ List.mem_cons_self, h.tail⟩
  · exact .ofOk ⟨trivial, h.tail⟩
  · exact .ofOk ⟨trivial, h.tail⟩
  · exact .ofOk ⟨trivial, h.tail⟩
  · rename_i rest
    refine .bind (plain_readCall position rest h.tail) fun call ⟨hcall, hrest⟩ => ?_
    split
    · rename_i after e
      rw [e] at hrest
      exact .ofOk ⟨hcall, hrest.tail⟩
    · exact .ofError _
  · exact .ofError _
  · exact .ofError _
  · exact .ofError _
  · exact .ofError _
  · exact plain_readLookup h
  · exact plain_readLookup h
  · exact plain_readLookup h
termination_by (tokens.length, 0)

theorem plain_readCall (position : Position) (tokens : List Token) (h : TokensPlain tokens) :
    Ensures (fun r => Call.Plain r.value ∧ TokensPlain r.rest) (readCall position tokens) := by
  unfold readCall
  split
  · exact .ofError _
  · refine .bind (plain_readExpr position tokens h) fun callee ⟨hcallee, hrest⟩ => ?_
    have := callee.shorter
    refine .bind (plain_readArguments position false callee.rest hrest)
      fun arguments ⟨hparams, hhash, hrest⟩ => ?_
    exact .ofOk ⟨⟨hcallee, hparams, hhash⟩, hrest⟩
termination_by (tokens.length, 1)

theorem plain_readArguments (position : Position) (named : Bool) (tokens : List Token)
    (h : TokensPlain tokens) :
    Ensures (fun r => exprsPlain r.params ∧ fieldsPlain r.hash ∧ TokensPlain r.rest)
      (readArguments position named tokens) := by
  unfold readArguments
  split
  · exact .ofOk ⟨trivial, trivial, h⟩
  · exact .ofOk ⟨trivial, trivial, h⟩
  · rename_i key rest
    refine .bind (plain_readExpr position rest h.tail.tail) fun value ⟨hvalue, hrest⟩ => ?_
    have := value.shorter
    refine .bind (plain_readArguments position true value.rest hrest)
      fun more ⟨hparams, hhash, hrest⟩ => ?_
    exact .ofOk ⟨hparams, ⟨hvalue, hhash⟩, hrest⟩
  · split
    · exact .ofError _
    · refine .bind (plain_readExpr position _ h) fun value ⟨hvalue, hrest⟩ => ?_
      have := value.shorter
      refine .bind (plain_readArguments position false value.rest hrest)
        fun more ⟨hparams, hhash, hrest⟩ => ?_
      exact .ofOk ⟨⟨hvalue, hparams⟩, hhash, hrest⟩
termination_by (tokens.length, 2)
decreasing_by
  all_goals
    subst_vars
    simp only [List.length_cons] at *
    decreasing_tactic

end

theorem plain_call (position : Position) {tokens : List Token} (h : TokensPlain tokens) :
    Ensures Call.Plain (Call.ofTokens position tokens) :=
  .bind (plain_readCall position tokens h) fun _ hc =>
    .ite (fun _ => .ofOk hc.1) fun _ => .ofError _

/-- The head of a partial tag, behind its name. -/
theorem plain_behindName (position : Position) {e : Expr} {rest : List Token} (he : e.Plain)
    (hrest : TokensPlain rest) :
    Ensures (fun head => head.name.Plain ∧ (∀ e ∈ head.context, e.Plain) ∧ fieldsPlain head.hash)
      (do
        let arguments ← readArguments position false rest
        match arguments.params with
        | [] => return ⟨e, none, arguments.hash⟩
        | [context] => return ⟨e, some context, arguments.hash⟩
        | _ => throw .extraPartialContext : Except Fault PartialHead) := by
  refine .bind (plain_readArguments position false rest hrest) fun arguments hread => ?_
  obtain ⟨hparams, hhash, _⟩ := hread
  split
  · refine .ofOk ⟨he, ?_, hhash⟩
    rintro _ ⟨⟩
  · rename_i context hp
    rw [hp] at hparams
    refine .ofOk ⟨he, ?_, hhash⟩
    rintro _ ⟨⟩
    exact hparams.1
  · exact .ofError _

theorem plain_partialHead (position : Position) {tokens : List Token} (h : TokensPlain tokens) :
    Ensures (fun head => head.name.Plain ∧ (∀ e ∈ head.context, e.Plain) ∧ fieldsPlain head.hash)
      (PartialHead.ofTokens position tokens) := by
  unfold PartialHead.ofTokens
  split
  · exact .ofError _
  · exact .bind (plain_readExpr position _ h) fun e he => plain_behindName position he.1 he.2
  · exact .bind (plain_readExpr position _ h) fun e he => plain_behindName position he.1 he.2
  · exact .bind (plain_readLookup h) fun e he => plain_behindName position he.1 he.2

theorem plain_cutParams? {tokens before after : List Token} (h : TokensPlain tokens)
    (e : cutParams? tokens = some (before, after)) : TokensPlain before := by
  fun_induction cutParams? tokens generalizing before after with
  | case1 tokens =>
    cases e
    exact nofun
  | case2 token tokens _ ih =>
    obtain ⟨⟨before', after'⟩, hc, hb⟩ := Option.map_eq_some_iff.mp e
    cases hb
    refine fun spelling hm => ?_
    rcases List.mem_cons.mp hm with rfl | hm
    · exact h _ List.mem_cons_self
    · exact ih h.tail hc spelling hm
  | case3 => cases e

theorem plain_splitParams {tokens : List Token} (h : TokensPlain tokens) :
    Ensures (fun r => TokensPlain r.1) (splitParams tokens) := by
  unfold splitParams
  split
  · exact .ofOk h
  · rename_i before after e
    split
    · exact .ofOk (plain_cutParams? h e)
    · exact .ofError _

/-! ## 4. Segments -/

/-- The numbers in the tags of some segments are numerals. -/
def SegmentsPlain (segments : List Segment) : Prop :=
  ∀ tag, .tag tag ∈ segments → TokensPlain tag.tokens

theorem SegmentsPlain.tail {segment : Segment} {segments : List Segment}
    (h : SegmentsPlain (segment :: segments)) : SegmentsPlain segments :=
  fun tag hm => h tag (List.mem_cons_of_mem _ hm)

theorem plain_ofPieces (stripStart : Bool) (pieces : List Piece) :
    Ensures SegmentsPlain (Segment.ofPieces stripStart pieces) := by
  fun_induction Segment.ofPieces stripStart pieces with
  | case1 => exact .ofOk nofun
  | case2 => exact .ofError _
  | case3 stripStart raw rest ih =>
    refine .bind ih fun segments hs => .ofOk fun tag hm => ?_
    exact hs tag ((List.mem_cons.mp hm).resolve_left nofun)
  | case4 stripStart raw position rest ih =>
    have hread : Ensures (fun tag => TokensPlain tag.tokens) (Segment.readTag raw position) := by
      unfold Segment.readTag
      split
      · exact .ofOk nofun
      · split
        · rename_i tokens ht
          exact .ofOk (Token.plain_readAll false raw.inner tokens ht)
        · exact .ofError _
    refine .bind hread fun read hr => .bind ih fun segments hs => .ofOk fun tag hm => ?_
    rcases List.mem_cons.mp hm with e | hm
    · cases e
      exact hr
    · exact hs tag hm

/-! ## 5. Statements -/

/-- The numbers of an ending are numerals. -/
def Ending.Plain : Ending → Prop
  | .eof => True
  | .close _ _ => True
  | .otherwise chain _ => ∀ call ∈ chain, Call.Plain call

theorem plain_ofSections (kind : TagKind) {call : Call} (params : List String)
    {main : List Statement} {inverse : Option Program} (hc : Call.Plain call)
    (hm : statementsPlain main) (hi : programPlain inverse) :
    (Statement.ofSections kind call params main inverse).Plain := by
  unfold Statement.ofSections
  split
  · exact ⟨hc, hi, hm⟩
  · exact ⟨hc, hm, hi⟩

mutual

theorem plain_readBody (segments : List Segment) (h : SegmentsPlain segments) :
    Ensures (fun r => statementsPlain r.statements ∧ r.ending.Plain ∧ SegmentsPlain r.rest)
      (readBody segments) := by
  unfold readBody
  split
  · exact .ofOk ⟨trivial, trivial, nofun⟩
  · rename_i text rest
    refine .bind (plain_readBody rest h.tail) fun body ⟨hbody, hends⟩ => ?_
    exact .ofOk ⟨⟨trivial, hbody⟩, hends⟩
  · rename_i tag rest
    have ht : TokensPlain tag.tokens := h tag List.mem_cons_self
    have hrest := h.tail
    split
    · -- a comment
      exact .bind (plain_readBody rest hrest) fun body hbody => .ofOk hbody
    · refine .ite (fun _ => ?_) fun _ => ?_
      · -- an else, which may begin a block of its own
        have htail : TokensPlain tag.tokens.tail := fun spelling hm =>
          ht spelling (List.mem_of_mem_tail hm)
        generalize tag.tokens.tail = tokens at htail
        split
        · exact .ofOk ⟨trivial, nofun, hrest⟩
        · refine .bind ((plain_call _ htail).mapError _) fun chain hchain => ?_
          refine .ofOk ⟨trivial, ?_, hrest⟩
          rintro _ ⟨⟩
          exact hchain
      · refine .bind ((plain_call _ ht).mapError _) fun call hcall => ?_
        refine .bind (plain_readBody rest hrest) fun body ⟨hbody, hends⟩ => ?_
        exact .ofOk ⟨⟨hcall, hbody⟩, hends⟩
    · refine .bind ((plain_call _ ht).mapError _) fun call hcall => ?_
      refine .bind (plain_readBody rest hrest) fun body ⟨hbody, hends⟩ => ?_
      exact .ofOk ⟨⟨hcall, hbody⟩, hends⟩
    · -- a closing tag
      refine .bind (P := fun _ => True) (fun _ _ => trivial) fun name _ => ?_
      exact .ofOk ⟨trivial, trivial, hrest⟩
    · refine .bind ((plain_partialHead _ ht).mapError _) fun head ⟨hname, hcontext, hhash⟩ => ?_
      refine .bind (plain_readBody rest hrest) fun body ⟨hbody, hends⟩ => ?_
      exact .ofOk ⟨⟨⟨hname, hcontext, hhash, trivial⟩, hbody⟩, hends⟩
    · refine .bind ((plain_partialHead _ ht).mapError _) fun head ⟨hname, hcontext, hhash⟩ => ?_
      refine .bind (plain_readSections _ _ rest hrest) fun sections ⟨hmain, _, hbehind⟩ => ?_
      refine .ite (fun _ => .ofError _) fun _ => ?_
      have := sections.noLonger
      refine .bind (plain_readBody sections.rest hbehind) fun body ⟨hbody, hends⟩ => ?_
      exact .ofOk ⟨⟨⟨hname, hcontext, hhash, hmain⟩, hbody⟩, hends⟩
    · -- a block of any kind
      refine .ite (fun _ => .ofOk ⟨trivial, nofun, hrest⟩) fun _ => ?_
      refine .bind ((plain_splitParams ht).mapError _) fun (tokens, params) htokens => ?_
      refine .bind ((plain_call _ htokens).mapError _) fun call hcall => ?_
      refine .bind (plain_readSections _ _ rest hrest) fun sections ⟨hmain, hinverse, hbehind⟩ => ?_
      have := sections.noLonger
      refine .bind (plain_readBody sections.rest hbehind) fun body ⟨hbody, hends⟩ => ?_
      exact .ofOk ⟨⟨plain_ofSections _ _ hcall hmain hinverse, hbody⟩, hends⟩
termination_by (segments.length, 0)
decreasing_by
  all_goals
    subst_vars
    simp only [List.length_cons] at *
    decreasing_tactic

theorem plain_readSections (name : String) (opened : Position) (segments : List Segment)
    (h : SegmentsPlain segments) :
    Ensures (fun r => statementsPlain r.main ∧ programPlain r.inverse ∧ SegmentsPlain r.rest)
      (readSections name opened segments) := by
  unfold readSections
  refine .bind (plain_readBody segments h) fun first ⟨hfirst, hending, hrest⟩ => ?_
  have := first.fits
  split
  · exact .ofError _
  · exact .ite (fun _ => .ofOk ⟨hfirst, trivial, hrest⟩) fun _ => .ofError _
  · rename_i e
    have : first.rest.length < segments.length := by
      simp only [e, Ending.cost] at this
      omega
    refine .bind (plain_readBody first.rest hrest) fun second ⟨hsecond, _, hbehind⟩ => ?_
    split
    · exact .ofError _
    · exact .ofError _
    · exact .ite (fun _ => .ofOk ⟨hfirst, hsecond, hbehind⟩) fun _ => .ofError _
  · -- the inverse is one block, which the else has begun
    rename_i call position e
    have : first.rest.length < segments.length := by
      simp only [e, Ending.cost] at this
      omega
    rw [e] at hending
    have hcall : Call.Plain call := hending call rfl
    refine .bind (plain_readSections name position first.rest hrest)
      fun chained ⟨hmain, hinverse, hbehind⟩ => ?_
    exact .ofOk ⟨hfirst, ⟨⟨hcall, hmain, hinverse⟩, trivial⟩, hbehind⟩
termination_by (segments.length, 1)

end

/-- **The numbers of a template are numerals.** -/
theorem plain_parse (source : String) :
    Ensures (fun program => statementsPlain program.body) (Program.parse source) := by
  refine .bind (plain_ofPieces false _) fun segments hs => ?_
  refine .bind (plain_readBody segments hs) fun body hb => ?_
  split
  · exact .ofOk hb.1
  · exact .ofError _
  · exact .ofError _

end Stache
