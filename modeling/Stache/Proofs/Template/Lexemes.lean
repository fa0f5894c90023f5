import Stache.Proofs.Template.Grammar
import Stache.Proofs.Template.Numbers
import Stache.Proofs.Template.Words
import Stache.Template.Expression

/-!
# Lexemes

The inside of a tag is cut into lexemes, the texts that single tokens and blanks are read from, so that what is
read can be traced back to what is written.

* `Lexeme.Fair` -- how the tokens of lookups are written: as they are spelled, but for names in brackets and
  for a single dot, which is the name `this`;
* `Lexed`, `lexed_of_readAll` -- **what is read is read lexeme by lexeme**, and nothing of the text is lost;
* `Lookup.spelled_read` -- the spelling of a lookup is that of its tokens;
* `WrittenAt`, `writtenAt_read` -- **where the lookup is written that is read first**;
* `WrittenAt.spelling_eq`, `dotsAsThis_eq_iff` -- written without brackets and blanks it is spelled as it is
  written, but for single dots: with one of them, it is not.
-/

namespace Stache

/-! ## 1. How tokens are written -/

/-- The spelling of a token that a lookup is made of. -/
def Token.spelling? : Token → Option (List Char)
  | .id name => some name.toList
  | .sep mark => some [mark.char]
  | .dotDot => some ['.', '.']
  | .at => some ['@']
  | _ => none

/-- The text that a token is read from, or a blank. -/
structure Lexeme where
  text : List Char
  /-- The token; none for a blank. -/
  token : Option Token
  deriving DecidableEq, Repr

namespace Lexeme

/-- A single dot that is the name `this`. -/
def loneDot : Lexeme :=
  ⟨['.'], some (.id "this")⟩

/-- What the lexeme adds to the spelling of a lookup. -/
def named (lexeme : Lexeme) : List Char :=
  (lexeme.token.bind Token.spelling?).getD []

/-- **How blanks and tokens are written.** The tokens that no lookup is made of are left open. -/
inductive Fair : Lexeme → Prop where
  | blank {c : Char} (h : Text.isBlank c = true) : Fair ⟨[c], none⟩
  | spelled {text : List Char} {token : Token} (h : token.spelling? = some text) : Fair ⟨text, some token⟩
  | dot : Fair loneDot
  | bracketed (name : List Char) : Fair ⟨'[' :: (name ++ [']']), some (.id (String.ofList name))⟩
  | other {text : List Char} {token : Token} (h : token.spelling? = none) : Fair ⟨text, some token⟩

end Lexeme

namespace Token

theorem append_of_splitString? {mark : Char} {text value rest : List Char}
    (h : splitString? mark text = some (value, rest)) : ∃ used, text = used ++ rest := by
  fun_induction splitString? mark text generalizing value rest with
  | case1 => cases h
  | case2 c text hescaped ih =>
    obtain ⟨⟨v, r⟩, hr, he⟩ := Option.map_eq_some_iff.mp h
    cases he
    obtain ⟨used, htext⟩ := ih hr
    cases text with
    | nil => cases hescaped.2
    | cons d text => exact ⟨c :: d :: used, congrArg (c :: d :: ·) htext⟩
  | case3 =>
    cases h
    exact ⟨[_], rfl⟩
  | case4 c text _ _ ih =>
    obtain ⟨⟨v, r⟩, hr, he⟩ := Option.map_eq_some_iff.mp h
    cases he
    obtain ⟨used, htext⟩ := ih hr
    exact ⟨c :: used, congrArg (c :: ·) htext⟩

theorem append_of_splitBracket? {text name rest : List Char} (h : splitBracket? text = some (name, rest)) :
    text = name ++ ']' :: rest := by
  induction text generalizing name rest with
  | nil => cases h
  | cons c text ih =>
    rw [splitBracket?] at h
    split at h
    · rename_i hc
      cases h
      rw [hc]
      rfl
    · obtain ⟨⟨n, r⟩, hr, he⟩ := Option.map_eq_some_iff.mp h
      cases he
      rw [ih hr]
      rfl

theorem append_of_splitNumber? {text spelling rest : List Char}
    (h : splitNumber? text = some (spelling, rest)) : ∃ used, text = used ++ rest := by
  simp only [splitNumber?] at h
  split at h
  · cases h
    exact ⟨_, (List.take_append_drop _ _).symm⟩
  · cases h

/-- A word is a name, as it is spelled, or a literal. -/
theorem fair_ofWord (word rest : List Char) : Lexeme.Fair ⟨word, some (ofWord word rest)⟩ := by
  have name : Lexeme.Fair ⟨word, some (.id (String.ofList word))⟩ := .spelled (by
    rw [spelling?, String.toList_ofList])
  unfold ofWord
  repeat' split
  all_goals first | exact name | exact .other rfl

/-- **What is read at the front of a text is written there.** -/
theorem fair_front (joined : Bool) (c : Char) (text : List Char) :
    Ensures (fun f => ∃ used, c :: text = used ++ f.rest ∧ Lexeme.Fair ⟨used, f.token⟩) (front joined c text) := by
  have other {token : Token} (h : token.spelling? = none) {hs} :
      ∃ used, c :: text = used ++ (⟨some token, text, hs⟩ : Front (c :: text)).rest ∧
        Lexeme.Fair ⟨used, some token⟩ := ⟨[c], rfl, .other h⟩
  have word : ∃ used, c :: text = used ++ (wordFront c text).rest ∧
      Lexeme.Fair ⟨used, (wordFront c text).token⟩ := by
    refine ⟨c :: text.takeWhile isIdChar, ?_, fair_ofWord _ _⟩
    rw [List.cons_append, wordFront, List.takeWhile_append_dropWhile]
  unfold front
  refine .ite (fun hblank => .ofOk ⟨[c], rfl, .blank hblank⟩) fun _ => ?_
  iterate 4 refine .ite (fun _ => .ofOk (other rfl)) fun _ => ?_
  refine .ite (fun hc => .ofOk ⟨[c], rfl, .spelled (by rw [hc]; rfl)⟩) fun _ => ?_
  refine .ite (fun hc => .ofOk ⟨[c], rfl, .spelled (by rw [hc]; rfl)⟩) fun _ => ?_
  refine .ite (fun hdot => ?_) fun _ => .ite (fun _ => ?_) fun _ => .ite (fun hbracket => ?_) fun _ =>
    .ite (fun _ => ?_) fun _ => .ite (fun _ => .ofOk word) fun _ => .ofError _
  · -- a dot
    subst hdot
    split
    · exact .ofOk ⟨['.', '.'], rfl, .spelled rfl⟩
    · cases joined with
      | true => exact .ofOk ⟨['.'], rfl, .spelled rfl⟩
      | false => exact .ofOk ⟨['.'], rfl, .dot⟩
  · split
    · exact .ofError _
    · rename_i value rest h
      obtain ⟨used, htext⟩ := append_of_splitString? h
      exact .ofOk ⟨c :: used, congrArg (c :: ·) htext, .other rfl⟩
  · split
    · exact .ofError _
    · rename_i name rest h
      have htext : c :: text = '[' :: (name ++ [']']) ++ rest := by
        rw [hbracket, append_of_splitBracket? h]
        simp
      exact .ofOk ⟨'[' :: (name ++ [']']), htext, .bracketed name⟩
  · split
    · rename_i spelling rest h
      obtain ⟨used, htext⟩ := append_of_splitNumber? h
      exact .ofOk ⟨used, htext, .other rfl⟩
    · exact .ofOk word

end Token

/-! ## 2. How a text is cut into lexemes -/

/-- The text is cut into these lexemes, behind a name or a closing parenthesis or not. -/
inductive Lexed : Bool → List Char → List Lexeme → Prop where
  | nil (joined : Bool) : Lexed joined [] []
  | cons {joined : Bool} {c : Char} {text used : List Char} {f : Token.Front (c :: text)}
    {lexemes : List Lexeme} (first : Token.front joined c text = .ok f) (hused : c :: text = used ++ f.rest)
    (others : Lexed (Token.joins f.token) f.rest lexemes) :
    Lexed joined (c :: text) (⟨used, f.token⟩ :: lexemes)

/-- **What is read is read lexeme by lexeme.** -/
theorem lexed_of_readAll (joined : Bool) (text : List Char) :
    Ensures (fun tokens => ∃ lexemes, Lexed joined text lexemes ∧ lexemes.filterMap Lexeme.token = tokens)
      (Token.readAll joined text) := by
  fun_induction Token.readAll joined text with
  | case1 joined => exact .ofOk ⟨[], .nil joined, rfl⟩
  | case2 joined c text ih =>
    intro tokens h
    obtain ⟨f, hf, h⟩ := bind_eq_ok.mp h
    obtain ⟨others, hothers, he⟩ := bind_eq_ok.mp h
    cases he
    obtain ⟨used, hused, _⟩ := Token.fair_front joined c text f hf
    obtain ⟨lexemes, hlexed, rfl⟩ := ih f others hothers
    refine ⟨_, .cons hf hused hlexed, ?_⟩
    cases f.token <;> rfl

namespace Lexed

variable {joined : Bool} {text : List Char} {lexemes : List Lexeme}

/-- Nothing of the text is lost. -/
theorem text_eq (h : Lexed joined text lexemes) : text = lexemes.flatMap Lexeme.text := by
  induction h with
  | nil => rfl
  | cons _ hused _ ih => exact hused.trans (by rw [List.flatMap_cons, ← ih])

theorem fair (h : Lexed joined text lexemes) : ∀ lexeme ∈ lexemes, lexeme.Fair := by
  induction h with
  | nil => exact nofun
  | @cons joined c text used f lexemes first hused _ ih =>
    obtain ⟨used', hused', hfair⟩ := Token.fair_front joined c text f first
    obtain rfl := List.append_cancel_right (hused.symm.trans hused')
    exact List.forall_mem_cons.mpr ⟨hfair, ih⟩

end Lexed

/-! ## 3. How lookups are spelled -/

/-- The tokens are those of a lookup, and this is how they are spelled. -/
def Spell (tokens : List Token) (spelling : String) : Prop :=
  (∀ token ∈ tokens, token.spelling? ≠ none) ∧
    spelling.toList = tokens.flatMap fun token => token.spelling?.getD []

theorem Spell.append {tokens more : List Token} {a b : String} (h : Spell tokens a) (h' : Spell more b) :
    Spell (tokens ++ more) (a ++ b) := by
  refine ⟨List.forall_mem_append.mpr ⟨h.1, h'.1⟩, ?_⟩
  rw [String.toList_append, h.2, h'.2, List.flatMap_append]

theorem Spell.nil : Spell [] "" :=
  ⟨nofun, rfl⟩

theorem Spell.one (token : Token) {spelling : String} (h : token.spelling? = some spelling.toList) :
    Spell [token] spelling :=
  ⟨fun _ hm => by rw [List.mem_singleton.mp hm, h]; exact Option.some_ne_none _, by simp [h]⟩

theorem spelled_climb (tokens : List Token) :
    ∃ used, tokens = used ++ (climb tokens).rest ∧ Spell used (climb tokens).spelling ∧
      ((climb tokens).goesOn = false → used ≠ []) := by
  fun_induction climb tokens with
  | case1 mark tokens above ih =>
    obtain ⟨used, htokens, hspell, _⟩ := ih
    have step : Spell [.dotDot, .sep mark] (".." ++ String.singleton mark.char) :=
      (Spell.one .dotDot rfl).append (.one (.sep mark) (by simp [Token.spelling?]))
    exact ⟨[.dotDot, .sep mark] ++ used, by simpa using htokens, step.append hspell,
      fun _ => List.cons_ne_nil _ _⟩
  | case2 tokens => exact ⟨[.dotDot], rfl, .one .dotDot (by simp [Token.spelling?]), fun _ => List.cons_ne_nil _ _⟩
  | case3 tokens => exact ⟨[], rfl, .nil, fun h => Bool.noConfusion h⟩

theorem spelled_readNames (tokens : List Token) :
    Ensures (fun r => ∃ used, tokens = used ++ r.rest ∧ Spell used r.value.2 ∧ used ≠ []) (readNames tokens) := by
  have name (name : String) : Spell [.id name] name := .one (.id name) rfl
  fun_induction readNames tokens with
  | case1 first mark next tokens ih =>
    refine .bind ih ?_
    rintro more ⟨used, htokens, hspell, _⟩
    have step : Spell [.id first, .sep mark] (first ++ String.singleton mark.char) :=
      (name first).append (.one (.sep mark) (by simp [Token.spelling?]))
    exact .ofOk ⟨[.id first, .sep mark] ++ used, by simpa using htokens, step.append hspell,
      List.cons_ne_nil _ _⟩
  | case2 first tokens => exact .ofOk ⟨[.id first], rfl, name first, List.cons_ne_nil _ _⟩
  | case3 => exact .ofError _

theorem Lookup.spelled_readBody (data : Bool) (tokens : List Token) :
    Ensures (fun r => ∃ used, tokens = used ++ r.rest ∧ used ≠ [] ∧
      ∃ spelling, Spell used spelling ∧ r.value.spelling = (if data then "@" else "") ++ spelling)
      (Lookup.readBody data tokens) := by
  obtain ⟨steps, htokens, hsteps, halone⟩ := spelled_climb tokens
  unfold Lookup.readBody
  dsimp only
  generalize (if data then "@" else "") = mark
  split
  · refine .bind (spelled_readNames _) fun names ⟨used, hrest, hnames, hne⟩ => ?_
    refine .ofOk ⟨steps ++ used, ?_, fun e => hne (List.append_eq_nil_iff.mp e).2, _, hsteps.append hnames, ?_⟩
    · rw [List.append_assoc, ← hrest]
      exact htokens
    · rw [← String.append_assoc]
      cases data <;> rfl
  · rename_i hends
    exact .ofOk ⟨steps, htokens, halone (Bool.not_eq_true _ ▸ hends), _, hsteps, rfl⟩

/-- **The spelling of a lookup is that of its tokens.** -/
theorem Lookup.spelled_read (tokens : List Token) :
    Ensures (fun r => ∃ used, tokens = used ++ r.rest ∧ used ≠ [] ∧ Spell used r.value.spelling)
      (Lookup.read tokens) := by
  unfold Lookup.read
  split
  · refine .bind (spelled_readBody true _) fun body ⟨used, htokens, _, spelling, hspell, he⟩ => ?_
    refine .ofOk ⟨.at :: used, congrArg (Token.at :: ·) htokens, List.cons_ne_nil _ _, ?_⟩
    have hat : Spell [.at] "@" := .one .at rfl
    rw [he]
    exact hat.append hspell
  · refine fun r h => ?_
    obtain ⟨used, htokens, hne, spelling, hspell, he⟩ := spelled_readBody false _ r h
    rw [if_neg Bool.false_ne_true, String.empty_append] at he
    exact ⟨used, htokens, hne, he ▸ hspell⟩

/-! ## 4. Where lookups are written -/

/-- The lexemes begin and end with a token. -/
structure Tight (path : List Lexeme) : Prop where
  nonempty : path ≠ []
  first : ∀ lexeme ∈ path.head?, lexeme.token ≠ none
  last : ∀ lexeme ∈ path.getLast?, lexeme.token ≠ none

/-- **The lookup is written so in the inside of a tag**: these lexemes have its tokens, nothing but blanks
    stands before them, and the tokens behind them are those that are left. -/
structure WrittenAt {tokens : List Token} (inside : List Char) (path : List Lexeme) (r : Read Lookup tokens) :
    Prop where
  lexed : ∃ blanks behind, Lexed false inside (blanks ++ (path ++ behind)) ∧
    (∀ lexeme ∈ blanks, lexeme.token = none) ∧ behind.filterMap Lexeme.token = r.rest
  tight : Tight path
  spelled : Spell (path.filterMap Lexeme.token) r.value.spelling

/-- Lexemes are cut behind a token where the tokens are cut. -/
theorem cut_lexemes {lexemes : List Lexeme} {used rest : List Token}
    (h : lexemes.filterMap Lexeme.token = used ++ rest) :
    ∃ path behind, lexemes = path ++ behind ∧ path.filterMap Lexeme.token = used ∧
      behind.filterMap Lexeme.token = rest ∧ ∀ lexeme ∈ path.getLast?, lexeme.token ≠ none := by
  obtain rfl | ⟨init, last, rfl⟩ := List.eq_nil_or_concat used
  · exact ⟨[], lexemes, rfl, rfl, h, nofun⟩
  · rw [List.concat_eq_append, List.append_assoc] at h
    obtain ⟨front, back, rfl, hfront, hback⟩ := List.filterMap_eq_append_iff.mp h
    -- cut right behind the lexeme of the last token, not behind the blanks after it
    obtain ⟨blanks, lexeme, behind, rfl, hblanks, hlast, hbehind⟩ := List.filterMap_eq_cons_iff.mp hback
    refine ⟨front ++ (blanks ++ [lexeme]), behind, by simp, ?_, hbehind, ?_⟩
    · rw [List.filterMap_append, List.filterMap_append, hfront, List.filterMap_eq_nil_iff.mpr hblanks,
        List.filterMap_cons_some hlast, List.concat_eq_append]
      rfl
    · intro other hm
      rw [← List.append_assoc, List.getLast?_concat] at hm
      cases hm
      rw [hlast]
      exact Option.some_ne_none last

/-- Some tokens that are read first are written by lexemes from a token to a token. -/
theorem exists_path {lexemes : List Lexeme} {used rest : List Token} (hne : used ≠ [])
    (h : lexemes.filterMap Lexeme.token = used ++ rest) :
    ∃ blanks path behind, lexemes = blanks ++ (path ++ behind) ∧ (∀ lexeme ∈ blanks, lexeme.token = none) ∧
      behind.filterMap Lexeme.token = rest ∧ Tight path ∧ path.filterMap Lexeme.token = used := by
  obtain ⟨whole, behind, rfl, hwhole, hbehind, hlast⟩ := cut_lexemes h
  obtain ⟨first, others, rfl⟩ := List.exists_cons_of_ne_nil hne
  -- in front, the blanks before the first token are no part of it
  obtain ⟨blanks, lexeme, path, rfl, hblanks, hfirst, hothers⟩ := List.filterMap_eq_cons_iff.mp hwhole
  refine ⟨blanks, lexeme :: path, behind, List.append_assoc _ _ _, hblanks, hbehind,
    ⟨List.cons_ne_nil _ _, ?_, ?_⟩, ?_⟩
  · rintro _ ⟨⟩
    rw [hfirst]
    exact Option.some_ne_none first
  · intro other hm
    exact hlast other (by rw [List.getLast?_append, hm]; rfl)
  · rw [List.filterMap_cons_some hfirst, hothers]

/-- **Where the lookup is written that is read first.** -/
theorem writtenAt_read {inside : List Char} {tokens : List Token} {r : Read Lookup tokens}
    (htokens : Token.tokenize inside = .ok tokens) (hread : Lookup.read tokens = .ok r) :
    ∃ path, WrittenAt inside path r := by
  obtain ⟨lexemes, hlexed, rfl⟩ := lexed_of_readAll false inside tokens htokens
  obtain ⟨used, hused, hne, hspell⟩ := Lookup.spelled_read _ r hread
  obtain ⟨blanks, path, behind, rfl, hblanks, hbehind, htight, hpath⟩ := exists_path hne hused
  exact ⟨path, ⟨blanks, behind, hlexed, hblanks, hbehind⟩, htight, hpath ▸ hspell⟩

namespace Lexeme

/-- No blank and no opening bracket stands in the text. -/
def Bare (text : List Char) : Prop :=
  ∀ c ∈ text, Text.isBlank c = false ∧ c ≠ '['

/-- **A lexeme of a lookup without blanks and brackets is named as it is written**, unless it is a single dot
    that is the name `this`. -/
theorem Fair.named_eq {lexeme : Lexeme} (h : lexeme.Fair) (hbare : Bare lexeme.text)
    (hspelled : ∀ token ∈ lexeme.token, token.spelling? ≠ none) :
    lexeme.named = if lexeme = loneDot then ['t', 'h', 'i', 's'] else lexeme.text := by
  cases h with
  | @blank c hblank =>
    have := (hbare c List.mem_cons_self).1
    rw [hblank] at this
    cases this
  | @spelled text token hs =>
    have hnamed : named ⟨text, some token⟩ = text := by rw [named, Option.bind_some, hs]; rfl
    rw [hnamed]
    split
    · rename_i e
      cases e
      simp [Token.spelling?] at hs
    · rfl
  | dot => decide
  | bracketed name => exact absurd rfl (hbare '[' List.mem_cons_self).2
  | other hs => exact absurd hs (hspelled _ rfl)

end Lexeme

/-- The text of the lexemes. -/
def textOf (path : List Lexeme) : List Char :=
  path.flatMap Lexeme.text

/-- The text of the lexemes with `this` in place of each single dot that is the name `this`. -/
def dotsAsThis (path : List Lexeme) : List Char :=
  path.flatMap fun lexeme => if lexeme = .loneDot then ['t', 'h', 'i', 's'] else lexeme.text

theorem textOf_cons (lexeme : Lexeme) (path : List Lexeme) : textOf (lexeme :: path) = lexeme.text ++ textOf path :=
  List.flatMap_cons

theorem dotsAsThis_cons (lexeme : Lexeme) (path : List Lexeme) : dotsAsThis (lexeme :: path) =
    (if lexeme = .loneDot then ['t', 'h', 'i', 's'] else lexeme.text) ++ dotsAsThis path :=
  List.flatMap_cons

theorem dotsAsThis_eq {path : List Lexeme} (h : Lexeme.loneDot ∉ path) : dotsAsThis path = textOf path := by
  induction path with
  | nil => rfl
  | cons lexeme path ih =>
    rw [List.mem_cons, not_or] at h
    rw [dotsAsThis_cons, textOf_cons, if_neg (Ne.symm h.1), ih h.2]

/-- Each such dot makes it longer. -/
theorem length_dotsAsThis (path : List Lexeme) :
    (dotsAsThis path).length = (textOf path).length + 3 * path.count .loneDot := by
  induction path with
  | nil => rfl
  | cons lexeme path ih =>
    rw [dotsAsThis_cons, textOf_cons, List.length_append, List.length_append, ih, List.count_cons]
    by_cases hdot : lexeme = .loneDot
    · have htext : lexeme.text.length = 1 := by rw [hdot]; rfl
      rw [if_pos hdot, if_pos (beq_iff_eq.mpr hdot), htext]
      simp only [List.length_cons, List.length_nil]
      omega
    · rw [if_neg hdot, if_neg (fun he => hdot (beq_iff_eq.mp he))]
      omega

/-- It is the text itself exactly if there is no such dot. -/
theorem dotsAsThis_eq_iff {path : List Lexeme} : dotsAsThis path = textOf path ↔ Lexeme.loneDot ∉ path := by
  refine ⟨fun h hm => ?_, dotsAsThis_eq⟩
  have hlength := length_dotsAsThis path
  rw [h] at hlength
  have := List.count_pos_iff.mpr hm
  omega

/-- The tokens of lexemes are spelled as the lexemes are named. -/
theorem flatMap_spelling (path : List Lexeme) :
    ((path.filterMap Lexeme.token).flatMap fun token => token.spelling?.getD []) = path.flatMap Lexeme.named := by
  induction path with
  | nil => rfl
  | cons lexeme path ih =>
    obtain ⟨text, token⟩ := lexeme
    cases token with
    | none => exact ih
    | some token => exact congrArg (token.spelling?.getD [] ++ ·) ih

namespace WrittenAt

variable {tokens : List Token} {inside : List Char} {path : List Lexeme} {r : Read Lookup tokens}

/-- **Without blanks and brackets a lookup is spelled as it is written**, but for single dots. -/
theorem spelling_eq (h : WrittenAt inside path r) (hbare : Lexeme.Bare (textOf path)) :
    r.value.spelling.toList = dotsAsThis path := by
  obtain ⟨blanks, behind, hlexed, _⟩ := h.lexed
  rw [h.spelled.2, flatMap_spelling, dotsAsThis, List.flatMap_def, List.flatMap_def]
  refine congrArg List.flatten (List.map_congr_left fun lexeme hm => ?_)
  have hfair := hlexed.fair lexeme (List.mem_append_right _ (List.mem_append_left _ hm))
  refine hfair.named_eq (fun c hc => hbare c (List.mem_flatMap.mpr ⟨lexeme, hm, hc⟩)) ?_
  intro token ht
  exact h.spelled.1 token (List.mem_filterMap.mpr ⟨lexeme, hm, ht⟩)

/-- Nothing but blanks stands before the lookup in the inside of the tag. -/
theorem stands (h : WrittenAt inside path r) : ∃ blanks behind, inside = blanks ++ (textOf path ++ behind) ∧
    ∀ c ∈ blanks, Text.isBlank c = true := by
  obtain ⟨blanks, behind, hlexed, hblanks, _⟩ := h.lexed
  refine ⟨textOf blanks, textOf behind, ?_, fun c hc => ?_⟩
  · rw [hlexed.text_eq, List.flatMap_append, List.flatMap_append]
    rfl
  · obtain ⟨lexeme, hm, hc⟩ := List.mem_flatMap.mp hc
    have hfair := hlexed.fair lexeme (List.mem_append_left _ hm)
    have hnone := hblanks lexeme hm
    cases hfair with
    | blank hblank =>
      rw [List.mem_singleton.mp hc]
      exact hblank
    | spelled | dot | bracketed | other => cases hnone

end WrittenAt

end Stache
