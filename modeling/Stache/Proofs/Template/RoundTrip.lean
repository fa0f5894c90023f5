import Stache.Proofs.Template.Grammar
import Stache.Proofs.Template.Spelling

/-!
# Expressions read back

A canonical spelling is read as the tree that it spells, up to what the reader only notes down: how lookups
are spelled, and where the tag stands.

* `Expr.bare`, `Call.bare` -- a tree without these notes;
* `exprOf`, `callOf`, `argumentsOf` -- the readers, without the notes;
* `Follows` -- the tokens that may stand behind an expression;
* `exprOf_tokens`, `callOf_tokens` -- what the tokens of a tree are read as;
* `read_canonical` -- **the canonical spelling of a call is read as the call**.
-/

namespace Stache

/-! ## 1. Trees without notes -/

mutual

/-- The expression without the spellings and positions in it. -/
def Expr.bare : Expr → Expr
  | .lookup l => .lookup { l with spelling := "" }
  | .str value => .str value
  | .num spelling => .num spelling
  | .bool value => .bool value
  | .null => .null
  | .undefined => .undefined
  | .sub call => .sub (Call.bare call)

/-- The call without its position, and without the notes in it. -/
def Call.bare : CallOf Expr → CallOf Expr
  | ⟨callee, params, hash, _⟩ => ⟨callee.bare, bareParams params, bareHash hash, .start⟩

def bareParams : List Expr → List Expr
  | [] => []
  | param :: params => param.bare :: bareParams params

def bareHash : List (String × Expr) → List (String × Expr)
  | [] => []
  | (key, value) :: hash => (key, value.bare) :: bareHash hash

end

/-- What the reader of lookups comes to: a lookup without its spelling, and the tokens that are left. -/
def lookupOf (tokens : List Token) : Except Fault (Lookup × List Token) :=
  (Lookup.read tokens).map fun r => ({ r.value with spelling := "" }, r.rest)

/-- What the reader of expressions comes to. -/
def exprOf (position : Position) (tokens : List Token) : Except Fault (Expr × List Token) :=
  (readExpr position tokens).map fun r => (r.value.bare, r.rest)

/-- What the reader of calls comes to. -/
def callOf (position : Position) (tokens : List Token) : Except Fault (Call × List Token) :=
  (readCall position tokens).map fun r => (Call.bare r.value, r.rest)

/-- What the reader of arguments comes to. -/
def argumentsOf (position : Position) (named : Bool) (tokens : List Token) :
    Except Fault (List Expr × List (String × Expr) × List Token) :=
  (readArguments position named tokens).map fun r => (bareParams r.params, bareHash r.hash, r.rest)

/-! ## 2. Lookups -/

/-- The tokens go on with neither a separator nor an equals sign. -/
def Follows (rest : List Token) : Prop :=
  ∀ token ∈ rest.head?, token ≠ .equals ∧ ∀ mark, token ≠ .sep mark

theorem follows_nil : Follows [] := nofun

theorem follows_close (rest : List Token) : Follows (.closeParen :: rest) := by
  rintro _ ⟨⟩
  exact ⟨nofun, nofun⟩

/-- Steps up are climbed, and the climb goes on with what is behind them. -/
theorem climb_steps (tokens : List Token) (n : Nat) :
    (climb (stepTokens n ++ tokens)).depth = (climb tokens).depth + n ∧
      (climb (stepTokens n ++ tokens)).goesOn = (climb tokens).goesOn ∧
      (climb (stepTokens n ++ tokens)).rest = (climb tokens).rest := by
  induction n with
  | zero => exact ⟨rfl, rfl, rfl⟩
  | succ n ih =>
    obtain ⟨hdepth, hgoes, hrest⟩ := ih
    exact ⟨congrArg (· + 1) hdepth, hgoes, hrest⟩

/-- Names are read up to where no separator follows. -/
theorem readNames_tokens {rest : List Token} (hrest : Follows rest) (name : String) (names : List String) :
    (readNames (namedTokens (name :: names) ++ rest)).map (fun r => (r.value.1, r.rest)) =
      .ok (name :: names, rest) := by
  induction names generalizing name with
  | nil =>
    cases rest with
    | nil => rfl
    | cons token rest =>
      obtain ⟨_, hsep⟩ := hrest token rfl
      cases token with
      | sep mark => exact absurd rfl (hsep mark)
      | _ => rfl
  | cons next names ih =>
    obtain ⟨read, hread, he⟩ := map_eq_ok.mp (ih next)
    simp only [Prod.mk.injEq] at he
    obtain ⟨hnames, hleft⟩ := he
    show (readNames (.id name :: .sep .dot :: .id next :: (dottedTokens names ++ rest))).map _ = _
    unfold readNames
    change readNames (.id next :: (dottedTokens names ++ rest)) = _ at hread
    rw [hread]
    show Except.ok (name :: read.value.1, read.rest) = _
    rw [hnames, hleft]

/-- A lookup that names something: the steps up, then the names. -/
theorem readBody_names (data : Bool) {tokens more : List Token} {names : List String} {rest : List Token}
    (hgoes : (climb tokens).goesOn = true) (hmore : (climb tokens).rest = more)
    (hnames : (readNames more).map (fun r => (r.value.1, r.rest)) = .ok (names, rest)) :
    (Lookup.readBody data tokens).map (fun r => ({ r.value with spelling := "" }, r.rest)) =
      .ok (Lookup.ofNames data (climb tokens).depth names "", rest) := by
  subst hmore
  obtain ⟨read, hread, he⟩ := map_eq_ok.mp hnames
  simp only [Prod.mk.injEq] at he
  obtain ⟨rfl, rfl⟩ := he
  unfold Lookup.readBody
  dsimp only
  rw [dif_pos hgoes, hread]
  show Except.ok _ = _
  cases data <;> rfl

/-- A lookup that ends with steps up. -/
theorem readBody_steps (data : Bool) {tokens rest : List Token} (hgoes : (climb tokens).goesOn = false)
    (hrest : (climb tokens).rest = rest) :
    (Lookup.readBody data tokens).map (fun r => ({ r.value with spelling := "" }, r.rest)) =
      .ok (⟨data, (climb tokens).depth, [], true, ""⟩, rest) := by
  subst hrest
  unfold Lookup.readBody
  dsimp only
  rw [dif_neg (by rw [hgoes]; exact nofun)]
  rfl

/-- Names that do not begin with `this` are all kept. -/
theorem dropWhile_this {names : List String} (h : names.head? ≠ some "this") :
    names.dropWhile (· == "this") = names := by
  cases names with
  | nil => rfl
  | cons name names =>
    have hne : name ≠ "this" := fun e => h (congrArg some e)
    exact List.dropWhile_cons_of_neg (by rwa [beq_iff_eq])

theorem ofNames_eq {data : Bool} {names : List String} (h : data = false → names.head? ≠ some "this")
    (depth : Nat) : Lookup.ofNames data depth names "" = ⟨data, depth, names, false, ""⟩ := by
  cases data with
  | true => rfl
  | false =>
    unfold Lookup.ofNames
    rw [if_neg nofun, dropWhile_this (h rfl)]
    exact congrArg (Lookup.mk false depth names · "") (beq_eq_false_iff_ne.mpr (h rfl))

/-- Without `@` a lookup is read from its first token on. -/
theorem lookupOf_of_ne_at {tokens : List Token} (h : tokens.head? ≠ some .at) :
    lookupOf tokens =
      (Lookup.readBody false tokens).map fun r => ({ r.value with spelling := "" }, r.rest) := by
  unfold lookupOf Lookup.read
  split
  · exact absurd rfl h
  · rfl

/-- Behind `@` a data variable is read. -/
theorem lookupOf_at (tokens : List Token) :
    lookupOf (.at :: tokens) =
      (Lookup.readBody true tokens).map fun r => ({ r.value with spelling := "" }, r.rest) := by
  unfold lookupOf Lookup.read
  dsimp only
  cases Lookup.readBody true tokens <;> rfl

theorem head_steps_ne_at {tokens : List Token} (h : tokens.head? ≠ some .at) (n : Nat) :
    (stepTokens n ++ tokens).head? ≠ some .at := by
  cases n with
  | zero => exact h
  | succ n => exact fun e => by cases e

/-- **A lookup is read from its tokens.** -/
theorem lookupOf_tokens {l : Lookup} (h : l.Regular) {rest : List Token} (hrest : Follows rest) :
    lookupOf (l.tokens ++ rest) = .ok ({ l with spelling := "" }, rest) := by
  obtain ⟨data, depth, parts, pinned, spelling⟩ := l
  obtain ⟨_, hfirst, hnames, hcontext⟩ := h
  dsimp only at hfirst hnames hcontext
  unfold Lookup.tokens
  cases pinned with
  | true =>
    obtain ⟨rfl, hdepth⟩ := hcontext rfl
    cases depth with
    | zero =>
      have hread := readNames_tokens hrest "this" parts
      have hgoes : (climb (namedTokens ("this" :: parts) ++ rest)).goesOn = true := rfl
      have hbody := readBody_names false hgoes rfl hread
      have hthis : Lookup.ofNames false 0 ("this" :: parts) "" = ⟨false, 0, parts, true, ""⟩ := by
        unfold Lookup.ofNames
        rw [if_neg nofun, List.dropWhile_cons_of_pos rfl, dropWhile_this (hfirst rfl)]
        rfl
      rw [← hthis]
      exact (lookupOf_of_ne_at (fun e => by cases e)).trans hbody
    | succ above =>
      obtain rfl : parts = [] := hdepth.resolve_left nofun
      have hlast : climb (.dotDot :: rest) = ⟨1, "..", false, rest, by simp⟩ := by
        cases rest with
        | nil => rfl
        | cons token rest =>
          obtain ⟨_, hsep⟩ := hrest token rfl
          cases token with
          | sep mark => exact absurd rfl (hsep mark)
          | _ => rfl
      obtain ⟨hdepth, hgoes, hleft⟩ := climb_steps (.dotDot :: rest) above
      rw [hlast] at hdepth hgoes hleft
      have hbody := readBody_steps false hgoes hleft
      rw [hdepth, Nat.add_comm 1 above] at hbody
      have hat : (Token.dotDot :: rest).head? ≠ some .at := fun e => by cases e
      simp only [reduceIte, List.append_assoc, List.cons_append, List.nil_append]
      exact (lookupOf_of_ne_at (head_steps_ne_at hat above)).trans hbody
  | false =>
    obtain ⟨name, parts, rfl⟩ := List.exists_cons_of_ne_nil (hnames rfl)
    have hread := readNames_tokens hrest name parts
    obtain ⟨hdepth, hgoes, hleft⟩ := climb_steps (namedTokens (name :: parts) ++ rest) depth
    have hbody := readBody_names data hgoes hleft hread
    have hbase : (climb (namedTokens (name :: parts) ++ rest)).depth = 0 := rfl
    rw [hdepth, hbase, Nat.zero_add, ofNames_eq hfirst] at hbody
    simp only [Bool.false_eq_true, reduceIte, List.append_assoc]
    cases data with
    | false =>
      have hat : (namedTokens (name :: parts) ++ rest).head? ≠ some .at := fun e => by cases e
      exact (lookupOf_of_ne_at (head_steps_ne_at hat depth)).trans hbody
    | true => exact (lookupOf_at _).trans hbody

/-! ## 3. Expressions, calls and arguments -/

variable {position : Position} {tokens rest after : List Token}

/-- Where a lookup begins, it is read as one. -/
theorem exprOf_lookup {l : Lookup} {token : Token}
    (hfirst : token = .at ∨ token = .dotDot ∨ ∃ name, token = .id name)
    (h : lookupOf (token :: tokens) = .ok (l, rest)) :
    exprOf position (token :: tokens) = .ok (.lookup l, rest) := by
  obtain ⟨read, hread, he⟩ := map_eq_ok.mp h
  simp only [Prod.mk.injEq] at he
  obtain ⟨rfl, rfl⟩ := he
  have hexpr : readExpr position (token :: tokens) = readLookup (token :: tokens) := by
    rcases hfirst with rfl | rfl | ⟨name, rfl⟩
    · rw [readExpr]
    · rw [readExpr]
    · rw [readExpr]
  unfold exprOf
  rw [hexpr, readLookup, hread]
  rfl

/-- A call in parentheses. -/
theorem exprOf_sub {call : Call} (h : callOf position tokens = .ok (call, .closeParen :: after)) :
    exprOf position (.openParen :: tokens) = .ok (.sub call, after) := by
  obtain ⟨⟨value, left, shorter⟩, hread, he⟩ := map_eq_ok.mp h
  cases he
  unfold exprOf
  rw [readExpr, hread]
  rfl

/-- A callee, then arguments. -/
theorem callOf_eq {callee : Expr} {params : List Expr} {hash : List (String × Expr)}
    (h : exprOf position tokens = .ok (callee, rest))
    (h' : argumentsOf position false rest = .ok (params, hash, after)) :
    callOf position tokens = .ok (⟨callee, params, hash, .start⟩, after) := by
  obtain ⟨read, hread, he⟩ := map_eq_ok.mp h
  simp only [Prod.mk.injEq] at he
  obtain ⟨rfl, rfl⟩ := he
  obtain ⟨arguments, harguments, he⟩ := map_eq_ok.mp h'
  simp only [Prod.mk.injEq] at he
  obtain ⟨rfl, rfl, rfl⟩ := he
  have hne : tokens ≠ [] := by
    rintro rfl
    rw [readExpr] at hread
    cases hread
  unfold callOf
  rw [readCall, if_neg hne, hread]
  show (readArguments position false read.rest >>= _).map _ = _
  rw [harguments]
  rfl

/-- Arguments end at the end, and before a closing parenthesis. -/
theorem argumentsOf_end (named : Bool) (h : rest = [] ∨ ∃ more, rest = .closeParen :: more) :
    argumentsOf position named rest = .ok ([], [], rest) := by
  unfold argumentsOf
  rcases h with rfl | ⟨more, rfl⟩
  · rw [readArguments]
    rfl
  · rw [readArguments]
    rfl

/-- A named argument, then more of them. -/
theorem argumentsOf_named (named : Bool) {key : String} {value : Expr} {params : List Expr}
    {hash : List (String × Expr)} (h : exprOf position tokens = .ok (value, rest))
    (h' : argumentsOf position true rest = .ok (params, hash, after)) :
    argumentsOf position named (.id key :: .equals :: tokens) =
      .ok (params, (key, value) :: hash, after) := by
  obtain ⟨read, hread, he⟩ := map_eq_ok.mp h
  simp only [Prod.mk.injEq] at he
  obtain ⟨rfl, rfl⟩ := he
  obtain ⟨arguments, harguments, he⟩ := map_eq_ok.mp h'
  simp only [Prod.mk.injEq] at he
  obtain ⟨rfl, rfl, rfl⟩ := he
  unfold argumentsOf
  rw [readArguments, hread]
  show (readArguments position true read.rest >>= _).map _ = _
  rw [harguments]
  rfl

/-- A positional argument, then more arguments. -/
theorem argumentsOf_positional {value : Expr} {params : List Expr} {hash : List (String × Expr)}
    (hkey : ∀ key more, tokens ≠ .id key :: .equals :: more)
    (h : exprOf position tokens = .ok (value, rest))
    (h' : argumentsOf position false rest = .ok (params, hash, after)) :
    argumentsOf position false tokens = .ok (value :: params, hash, after) := by
  obtain ⟨read, hread, he⟩ := map_eq_ok.mp h
  simp only [Prod.mk.injEq] at he
  obtain ⟨rfl, rfl⟩ := he
  obtain ⟨arguments, harguments, he⟩ := map_eq_ok.mp h'
  simp only [Prod.mk.injEq] at he
  obtain ⟨rfl, rfl, rfl⟩ := he
  have hnil : tokens = [] → False := by
    rintro rfl
    rw [readExpr] at hread
    cases hread
  have hclose (more : List Token) : tokens = .closeParen :: more → False := by
    rintro rfl
    rw [readExpr] at hread
    cases hread
  unfold argumentsOf
  rw [readArguments.eq_4 position false tokens hnil hclose hkey, if_neg Bool.false_ne_true, hread]
  show (readArguments position false read.rest >>= _).map _ = _
  rw [harguments]
  rfl

/-! ## 4. Tokens read back -/

/-- How a lookup begins: with `@`, with a step up, or with names. -/
theorem Lookup.tokens_cases {l : Lookup} (h : l.Regular) :
    (∃ more, l.tokens = .at :: more) ∨ (∃ more, l.tokens = .dotDot :: more) ∨
      ∃ name names, l.tokens = namedTokens (name :: names) := by
  obtain ⟨data, depth, parts, pinned, spelling⟩ := l
  have hnames := h.names
  unfold Lookup.tokens
  cases pinned with
  | true =>
    match depth with
    | 0 => exact .inr (.inr ⟨"this", parts, rfl⟩)
    | 1 => exact .inr (.inl ⟨[], rfl⟩)
    | above + 2 => exact .inr (.inl ⟨_, rfl⟩)
  | false =>
    obtain ⟨name, parts, rfl⟩ := List.exists_cons_of_ne_nil (hnames rfl)
    cases data with
    | true => exact .inl ⟨_, rfl⟩
    | false =>
      cases depth with
      | zero => exact .inr (.inr ⟨name, parts, rfl⟩)
      | succ => exact .inr (.inl ⟨_, rfl⟩)

variable {mark : String → Char}

/-- An expression begins with neither a separator nor an equals sign. -/
theorem follows_tokens {e : Expr} (h : e.Regular mark) (rest : List Token) : Follows (e.tokens ++ rest) := by
  cases e with
  | lookup l =>
    rcases l.tokens_cases h with ⟨_, he⟩ | ⟨_, he⟩ | ⟨_, _, he⟩
    all_goals
      rw [Expr.tokens, he]
      rintro _ ⟨⟩
      exact ⟨nofun, nofun⟩
  | _ =>
    rintro _ ⟨⟩
    exact ⟨nofun, nofun⟩

/-- An expression is not taken for a key. -/
theorem tokens_ne_key {e : Expr} (h : e.Regular mark) (hrest : Follows rest) (key : String)
    (more : List Token) : e.tokens ++ rest ≠ .id key :: .equals :: more := by
  cases e with
  | lookup l =>
    rcases l.tokens_cases h with ⟨_, he⟩ | ⟨_, he⟩ | ⟨name, names, he⟩
    · rw [Expr.tokens, he]
      exact nofun
    · rw [Expr.tokens, he]
      exact nofun
    · rw [Expr.tokens, he]
      intro hkey
      cases names with
      | cons => cases hkey
      | nil =>
        obtain rfl : rest = .equals :: more := (List.cons.inj hkey).2
        exact (hrest .equals rfl).1 rfl
  | _ => exact nofun

theorem follows_params {params : List Expr} (h : paramsRegular mark params) (hrest : Follows rest) :
    Follows (paramsTokens params ++ rest) := by
  cases params with
  | nil => exact hrest
  | cons param params =>
    rw [paramsTokens, List.append_assoc]
    exact follows_tokens h.1 _

theorem follows_hash (hash : List (String × Expr)) (hrest : Follows rest) :
    Follows (hashTokens hash ++ rest) := by
  cases hash with
  | nil => exact hrest
  | cons field hash =>
    rintro _ ⟨⟩
    exact ⟨nofun, nofun⟩

/-- The tokens of a call end, or a closing parenthesis stands behind them. -/
def CallEnds (rest : List Token) : Prop :=
  rest = [] ∨ ∃ more, rest = .closeParen :: more

theorem CallEnds.follows (h : CallEnds rest) : Follows rest := by
  rcases h with rfl | ⟨more, rfl⟩
  · exact follows_nil
  · exact follows_close more

mutual

/-- **An expression is read from its tokens.** -/
theorem exprOf_tokens (position : Position) : ∀ e : Expr, e.Regular mark → ∀ {rest : List Token},
    Follows rest → exprOf position (e.tokens ++ rest) = .ok (e.bare, rest)
  | .lookup l, h, rest, hrest => by
    have hread := lookupOf_tokens h hrest
    rw [Expr.tokens]
    rcases l.tokens_cases h with ⟨_, he⟩ | ⟨_, he⟩ | ⟨name, _, he⟩
    · rw [he] at hread ⊢
      exact exprOf_lookup (.inl rfl) hread
    · rw [he] at hread ⊢
      exact exprOf_lookup (.inr (.inl rfl)) hread
    · rw [he] at hread ⊢
      exact exprOf_lookup (.inr (.inr ⟨name, rfl⟩)) hread
  | .str value, _, rest, _ => by
    show exprOf position (.str value :: rest) = _
    rw [exprOf, readExpr]
    rfl
  | .num spelling, _, rest, _ => by
    show exprOf position (.num spelling :: rest) = _
    rw [exprOf, readExpr]
    rfl
  | .bool value, _, rest, _ => by
    show exprOf position (.bool value :: rest) = _
    rw [exprOf, readExpr]
    rfl
  | .null, _, rest, _ => by
    show exprOf position (.null :: rest) = _
    rw [exprOf, readExpr]
    rfl
  | .undefined, _, rest, _ => by
    show exprOf position (.undefined :: rest) = _
    rw [exprOf, readExpr]
    rfl
  | .sub call, h, rest, _ => by
    have hcall := callOf_tokens position call h (.inr ⟨rest, rfl⟩)
    rw [Expr.tokens, List.cons_append, List.append_assoc]
    exact exprOf_sub hcall

/-- **A call is read from its tokens.** -/
theorem callOf_tokens (position : Position) : ∀ call : CallOf Expr, Call.Regular mark call →
    ∀ {rest : List Token}, CallEnds rest →
    callOf position (Call.tokens call ++ rest) = .ok (Call.bare call, rest)
  | ⟨callee, params, hash, _⟩, ⟨hcallee, hparams, hhash⟩, rest, hrest => by
    have hfields := argumentsOf_hash position hash hhash false hrest
    have harguments := argumentsOf_params position params hparams (follows_hash hash hrest.follows) hfields
    have hread := exprOf_tokens position callee hcallee
      (follows_params hparams (follows_hash hash hrest.follows))
    rw [Call.tokens, List.append_assoc, List.append_assoc]
    exact callOf_eq hread harguments

/-- Positional arguments are read from their tokens, and named ones behind them. -/
theorem argumentsOf_params (position : Position) : ∀ params : List Expr, paramsRegular mark params →
    ∀ {rest after : List Token} {hash : List (String × Expr)}, Follows rest →
    argumentsOf position false rest = .ok ([], hash, after) →
    argumentsOf position false (paramsTokens params ++ rest) = .ok (bareParams params, hash, after)
  | [], _, _, _, _, _, h => h
  | param :: params, ⟨hparam, hparams⟩, rest, _, _, hrest, h => by
    have hmore := argumentsOf_params position params hparams hrest h
    have hfollows := follows_params hparams hrest
    rw [paramsTokens, List.append_assoc]
    exact argumentsOf_positional (tokens_ne_key hparam hfollows)
      (exprOf_tokens position param hparam hfollows)
      hmore

/-- Named arguments are read from their tokens. -/
theorem argumentsOf_hash (position : Position) : ∀ hash : List (String × Expr), hashRegular mark hash →
    ∀ (named : Bool) {rest : List Token}, CallEnds rest →
    argumentsOf position named (hashTokens hash ++ rest) = .ok ([], bareHash hash, rest)
  | [], _, named, _, hrest => argumentsOf_end named hrest
  | (key, value) :: hash, ⟨_, hvalue, hhash⟩, named, rest, hrest => by
    have hmore := argumentsOf_hash position hash hhash true hrest
    have hread := exprOf_tokens position value hvalue (follows_hash hash hrest.follows)
    rw [hashTokens, List.cons_append, List.cons_append, List.append_assoc]
    exact argumentsOf_named named hread hmore

end

/-- **The canonical spelling of a call is read as the call**, whichever quotes its strings stand in. -/
theorem read_canonical (call : Call) (h : Call.Regular mark call) (position : Position) :
    ∃ tokens read, Token.tokenize (Call.canonical mark call) = .ok tokens ∧
      Call.ofTokens position tokens = .ok read ∧ Call.bare read = Call.bare call := by
  have hcall := callOf_tokens position call h (.inl rfl)
  rw [List.append_nil] at hcall
  obtain ⟨read, hread, he⟩ := map_eq_ok.mp hcall
  simp only [Prod.mk.injEq] at he
  obtain ⟨hbare, hrest⟩ := he
  refine ⟨_, read.value, tokenize_canonical h, ?_, hbare⟩
  rw [Call.ofTokens, hread]
  show (if read.rest.isEmpty then Except.ok read.value else _) = _
  rw [hrest]
  rfl

/-- A call with arguments of several kinds, one of them a call. -/
def sampleCall : Call :=
  ⟨.lookup ⟨false, 0, ["a"], false, "a"⟩,
    [.lookup ⟨true, 1, ["b c", "d"], false, "@../b c.d"⟩, .str "x y",
      .sub ⟨.lookup ⟨false, 0, ["e"], true, "this.e"⟩, [.num "-1.5"], [], .start⟩],
    [("k", .bool true), ("this", .lookup ⟨false, 2, [], true, "../.."⟩)], .start⟩

theorem regular_sampleCall : Call.Regular (fun _ => '"') sampleCall := by
  have hname : Lookup.Regular ⟨false, 0, ["a"], false, "a"⟩ :=
    ⟨by decide, by decide, by decide, by decide⟩
  have hdata : Lookup.Regular ⟨true, 1, ["b c", "d"], false, "@../b c.d"⟩ :=
    ⟨by decide, by decide, by decide, by decide⟩
  have hthis : Lookup.Regular ⟨false, 0, ["e"], true, "this.e"⟩ :=
    ⟨by decide, by decide, by decide, by decide⟩
  have hup : Lookup.Regular ⟨false, 2, [], true, "../.."⟩ :=
    ⟨by decide, by decide, by decide, by decide⟩
  have hquoted : Quotable (fun _ => '"') "x y" := ⟨.inl rfl, by decide, by decide⟩
  have hnumeral : IsNumeral "-1.5".toList :=
    ⟨['-'], ['1'], ['.', '5'], rfl, .inr rfl, ⟨by simp, by simp⟩, .inr ⟨['5'], rfl, by simp, by simp⟩⟩
  exact ⟨hname, ⟨hdata, hquoted, ⟨hthis, ⟨hnumeral, trivial⟩, trivial⟩, trivial⟩,
    ⟨by decide, trivial, by decide, hup, trivial⟩⟩

/-- `[a] @../[b c].[d] "x y" (this.[e] -1.5) [k]=true [this]=../..` -/
theorem read_sampleCall :
    String.ofList (Call.canonical (fun _ => '"') sampleCall) =
        "[a] @../[b c].[d] \"x y\" (this.[e] -1.5) [k]=true [this]=../.." ∧
      ∃ tokens read, Token.tokenize (Call.canonical (fun _ => '"') sampleCall) = .ok tokens ∧
        Call.ofTokens ⟨3, 7⟩ tokens = .ok read ∧ Call.bare read = Call.bare sampleCall :=
  ⟨by decide, read_canonical sampleCall regular_sampleCall ⟨3, 7⟩⟩

end Stache
