import Stache.Proofs.Template.Words
import Stache.Template.Tree

/-!
# Canonical spellings

Every expression has one spelling that leaves nothing to the neighbouring characters: names stand in
brackets, and one blank stands between arguments.

* `Expr.canonical`, `Call.canonical` -- the canonical spelling, and `Expr.tokens`, `Call.tokens`, what it is
  read as;
* `Expr.Regular`, `Call.Regular` -- the trees that have one: what stands in brackets has no closing bracket,
  what stands in quotes has neither the quote nor a backslash;
* `Ends` -- what may stand behind an expression;
* `tokenize_canonical` -- **a canonical spelling is cut into its tokens**.
-/

namespace Stache

/-! ## 1. Spellings -/

/-- A name in brackets. -/
def bracketed (name : String) : List Char :=
  '[' :: (name.toList ++ [']'])

/-- A string in quotes. -/
def quoted (mark : Char) (value : String) : List Char :=
  mark :: (value.toList ++ [mark])

/-- More names of a lookup. -/
def dotted : List String → List Char
  | [] => []
  | name :: names => '.' :: (bracketed name ++ dotted names)

/-- The names of a lookup, with dots between them. -/
def named : List String → List Char
  | [] => []
  | name :: names => bracketed name ++ dotted names

/-- Steps up, each with its separator. -/
def steps : Nat → List Char
  | 0 => []
  | n + 1 => '.' :: '.' :: '/' :: steps n

/-- The canonical spelling of a lookup: names behind `@` and steps up, names behind `this`, or steps up
    alone. -/
def Lookup.canonical (l : Lookup) : List Char :=
  if l.pinned then
    match l.depth with
    | 0 => ['t', 'h', 'i', 's'] ++ dotted l.parts
    | above + 1 => steps above ++ ['.', '.']
  else
    (if l.data then ['@'] else []) ++ (steps l.depth ++ named l.parts)

section

-- The quotes that each string is put in.
variable (mark : String → Char)

mutual

/-- The canonical spelling of an expression. -/
def Expr.canonical : Expr → List Char
  | .lookup l => l.canonical
  | .str value => quoted (mark value) value
  | .num spelling => spelling.toList
  | .bool value => (boolText value).toList
  | .null => ['n', 'u', 'l', 'l']
  | .undefined => ['u', 'n', 'd', 'e', 'f', 'i', 'n', 'e', 'd']
  | .sub call => '(' :: (Call.canonical call ++ [')'])

/-- The canonical spelling of a call: positional arguments stand before named ones. -/
def Call.canonical : CallOf Expr → List Char
  | ⟨callee, params, hash, _⟩ => callee.canonical ++ (paramsCanonical params ++ hashCanonical hash)

/-- Positional arguments, each behind a blank. -/
def paramsCanonical : List Expr → List Char
  | [] => []
  | param :: params => ' ' :: (param.canonical ++ paramsCanonical params)

/-- Named arguments, each behind a blank. -/
def hashCanonical : List (String × Expr) → List Char
  | [] => []
  | (key, value) :: hash => ' ' :: (bracketed key ++ '=' :: (value.canonical ++ hashCanonical hash))

end

end

/-! ## 2. Tokens -/

def dottedTokens : List String → List Token
  | [] => []
  | name :: names => .sep .dot :: .id name :: dottedTokens names

def namedTokens : List String → List Token
  | [] => []
  | name :: names => .id name :: dottedTokens names

def stepTokens : Nat → List Token
  | 0 => []
  | n + 1 => .dotDot :: .sep .slash :: stepTokens n

/-- The tokens of a lookup. -/
def Lookup.tokens (l : Lookup) : List Token :=
  if l.pinned then
    match l.depth with
    | 0 => .id "this" :: dottedTokens l.parts
    | above + 1 => stepTokens above ++ [.dotDot]
  else
    (if l.data then [.at] else []) ++ (stepTokens l.depth ++ namedTokens l.parts)

mutual

/-- The tokens of an expression. -/
def Expr.tokens : Expr → List Token
  | .lookup l => l.tokens
  | .str value => [.str value]
  | .num spelling => [.num spelling]
  | .bool value => [.bool value]
  | .null => [.null]
  | .undefined => [.undefined]
  | .sub call => .openParen :: (Call.tokens call ++ [.closeParen])

def Call.tokens : CallOf Expr → List Token
  | ⟨callee, params, hash, _⟩ => callee.tokens ++ (paramsTokens params ++ hashTokens hash)

def paramsTokens : List Expr → List Token
  | [] => []
  | param :: params => param.tokens ++ paramsTokens params

def hashTokens : List (String × Expr) → List Token
  | [] => []
  | (key, value) :: hash => .id key :: .equals :: (value.tokens ++ hashTokens hash)

end

/-! ## 3. Trees with a canonical spelling -/

/-- The name can stand in brackets. -/
def Bracketable (name : String) : Prop :=
  ']' ∉ name.toList

instance (name : String) : Decidable (Bracketable name) :=
  inferInstanceAs (Decidable (']' ∉ name.toList))

/-- The lookup has a canonical spelling. -/
structure Lookup.Regular (l : Lookup) : Prop where
  /-- Names can stand in brackets. -/
  parts : ∀ part ∈ l.parts, Bracketable part
  /-- A first name `this` would be dropped. -/
  first : l.data = false → l.parts.head? ≠ some "this"
  /-- What is not about the context itself names something. -/
  names : l.pinned = false → l.parts ≠ []
  /-- What is about a context itself has no `@`, and names nothing if it is about an outer one. -/
  context : l.pinned = true → l.data = false ∧ (l.depth = 0 ∨ l.parts = [])

/-- At least one digit. -/
def IsDigits (digits : List Char) : Prop :=
  digits ≠ [] ∧ ∀ c ∈ digits, c.isDigit = true

/-- An optional minus, digits, and optionally a dot and more digits. -/
def IsNumeral (spelling : List Char) : Prop :=
  ∃ sign whole fraction, spelling = sign ++ (whole ++ fraction) ∧ (sign = [] ∨ sign = ['-']) ∧
    IsDigits whole ∧ (fraction = [] ∨ ∃ digits, fraction = '.' :: digits ∧ IsDigits digits)

section

variable (mark : String → Char)

/-- The string can stand in its quotes. -/
def Quotable (value : String) : Prop :=
  (mark value = '"' ∨ mark value = '\'') ∧ mark value ∉ value.toList ∧ '\\' ∉ value.toList

mutual

/-- The expression has a canonical spelling. -/
def Expr.Regular : Expr → Prop
  | .lookup l => l.Regular
  | .str value => Quotable mark value
  | .num spelling => IsNumeral spelling.toList
  | .bool _ => True
  | .null => True
  | .undefined => True
  | .sub call => Call.Regular call

/-- So has the call. -/
def Call.Regular : CallOf Expr → Prop
  | ⟨callee, params, hash, _⟩ => callee.Regular ∧ paramsRegular params ∧ hashRegular hash

def paramsRegular : List Expr → Prop
  | [] => True
  | param :: params => param.Regular ∧ paramsRegular params

def hashRegular : List (String × Expr) → Prop
  | [] => True
  | (key, value) :: hash => Bracketable key ∧ value.Regular ∧ hashRegular hash

end

end

/-! ## 4. Reading characters -/

/-- The text is at its end, or goes on with a blank or a closing parenthesis. -/
def Ends (rest : List Char) : Prop :=
  ∀ c ∈ rest.head?, c = ' ' ∨ c = ')'

theorem ends_nil : Ends [] := nofun

theorem ends_blank (rest : List Char) : Ends (' ' :: rest) := by
  rintro _ ⟨⟩
  exact .inl rfl

theorem ends_close (rest : List Char) : Ends (')' :: rest) := by
  rintro _ ⟨⟩
  exact .inr rfl

theorem Ends.head_isDigit {rest : List Char} (h : Ends rest) : ∀ c ∈ rest.head?, c.isDigit = false := by
  intro c hc
  rcases h c hc with rfl | rfl
  · rfl
  · rfl

theorem Ends.head_isIdChar {rest : List Char} (h : Ends rest) :
    ∀ c ∈ rest.head?, Token.isIdChar c = false := by
  intro c hc
  rcases h c hc with rfl | rfl
  · decide
  · decide

theorem Ends.isLiteralEnd {rest : List Char} (h : Ends rest) : Token.isLiteralEnd rest = true := by
  cases rest with
  | nil => rfl
  | cons c rest =>
    rcases h c rfl with rfl | rfl
    · rfl
    · rfl

namespace Token

variable {joined : Bool} {rest : List Char} {tail : List Token}

/-- What stands at the front of a text is the first token. -/
theorem readAll_token {c : Char} {text : List Char} {f : Front (c :: text)} {token : Token}
    (h : front joined c text = .ok f) (htoken : f.token = some token)
    (hrest : readAll (joins (some token)) f.rest = .ok tail) :
    readAll joined (c :: text) = .ok (token :: tail) := by
  rw [readAll_of_front h, htoken, hrest]
  rfl

/-- The marks that are a token of their own wherever they stand. -/
def marks : List (Char × Token) :=
  [('(', .openParen), (')', .closeParen), ('=', .equals), ('@', .at), ('/', .sep .slash)]

theorem readAll_mark {c : Char} {token : Token} (h : (c, token) ∈ marks)
    (hrest : readAll (joins (some token)) rest = .ok tail) :
    readAll joined (c :: rest) = .ok (token :: tail) := by
  have hfront : front joined c rest = .ok ⟨some token, rest, by simp⟩ := by
    simp only [marks, List.mem_cons, Prod.mk.injEq, List.not_mem_nil, or_false] at h
    unfold front
    rcases h with ⟨rfl, rfl⟩ | ⟨rfl, rfl⟩ | ⟨rfl, rfl⟩ | ⟨rfl, rfl⟩ | ⟨rfl, rfl⟩
    all_goals rfl
  exact readAll_token hfront rfl hrest

/-- Two dots are a step up. -/
theorem readAll_dots (hrest : readAll false rest = .ok tail) :
    readAll joined ('.' :: '.' :: rest) = .ok (.dotDot :: tail) := by
  have hfront : front joined '.' ('.' :: rest) =
      .ok ⟨some .dotDot, rest, by simp only [List.length_cons]; omega⟩ := rfl
  exact readAll_token hfront rfl hrest

/-- A dot right behind a name separates, if a name in brackets follows. -/
theorem readAll_dot (hrest : readAll false ('[' :: rest) = .ok tail) :
    readAll true ('.' :: '[' :: rest) = .ok (.sep .dot :: tail) := by
  have hfront : front true '.' ('[' :: rest) = .ok ⟨some (.sep .dot), '[' :: rest, by simp⟩ := rfl
  exact readAll_token hfront rfl hrest

/-- Where no dot stands it is of no concern whether a name ends there. -/
theorem readAll_ends (h : Ends rest) (hrest : readAll false rest = .ok tail) :
    readAll joined rest = .ok tail := by
  cases rest with
  | nil => rwa [readAll_nil] at hrest ⊢
  | cons c rest =>
    have hfront : front joined c rest = front false c rest := by
      rcases h c rfl with rfl | rfl
      · rfl
      · rfl
    rw [readAll.eq_def] at hrest ⊢
    dsimp only at hrest ⊢
    rw [hfront]
    exact hrest

theorem splitBracket?_append (name : List Char) (h : ']' ∉ name) (rest : List Char) :
    splitBracket? (name ++ ']' :: rest) = some (name, rest) := by
  induction name with
  | nil => exact if_pos rfl
  | cons c name ih =>
    obtain ⟨hc, hname⟩ := not_or.mp (mt List.mem_cons.mpr h)
    rw [List.cons_append, splitBracket?, if_neg (Ne.symm hc), ih hname]
    rfl

/-- **A name in brackets is one name**, whatever is in it. -/
theorem readAll_bracketed {name : String} (h : Bracketable name) (hrest : readAll true rest = .ok tail) :
    readAll joined (bracketed name ++ rest) = .ok (.id name :: tail) := by
  have hsplit := splitBracket?_append name.toList h rest
  have hfront : ∃ f, front joined '[' (name.toList ++ ']' :: rest) = .ok f ∧
      f.token = some (.id name) ∧ f.rest = rest := by
    have hblank : Text.isBlank '[' = false := by decide
    unfold front
    simp only [hblank, Bool.false_eq_true, Char.reduceEq, or_self, reduceIte]
    split
    · rename_i e
      cases hsplit.symm.trans e
    · rename_i e
      cases hsplit.symm.trans e
      exact ⟨_, rfl, by rw [String.ofList_toList], rfl⟩
  obtain ⟨f, hf, htoken, hleft⟩ := hfront
  rw [bracketed, List.cons_append, List.append_assoc]
  exact readAll_token hf htoken (hleft.symm ▸ hrest)

theorem splitString?_append {mark : Char} (value : List Char) (h : mark ∉ value) (h' : '\\' ∉ value)
    (rest : List Char) (hmark : mark ≠ '\\') :
    splitString? mark (value ++ mark :: rest) = some (value, rest) := by
  induction value with
  | nil =>
    rw [List.nil_append, splitString?, if_neg (fun e => hmark e.1), if_pos rfl]
  | cons c value ih =>
    obtain ⟨hc, hvalue⟩ := not_or.mp (mt List.mem_cons.mpr h)
    obtain ⟨hslash, hvalue'⟩ := not_or.mp (mt List.mem_cons.mpr h')
    rw [List.cons_append, splitString?, if_neg (fun e => hslash e.1.symm), if_neg (Ne.symm hc),
      ih hvalue hvalue']
    rfl

/-- **A string in quotes is one string.** -/
theorem readAll_string {mark : Char} {value : String} (hmark : mark = '"' ∨ mark = '\'')
    (h : mark ∉ value.toList) (h' : '\\' ∉ value.toList) (hrest : readAll false rest = .ok tail) :
    readAll joined (quoted mark value ++ rest) = .ok (.str value :: tail) := by
  have hslash : mark ≠ '\\' := by rcases hmark with rfl | rfl <;> decide
  have hsplit := splitString?_append value.toList h h' rest hslash
  have hfront : ∃ f, front joined mark (value.toList ++ mark :: rest) = .ok f ∧
      f.token = some (.str value) ∧ f.rest = rest := by
    unfold front
    rcases hmark with rfl | rfl
    all_goals
      have hblank : Text.isBlank '"' = false ∧ Text.isBlank '\'' = false := by decide
      simp only [hblank, Bool.false_eq_true, Char.reduceEq, or_true, true_or, reduceIte]
      split
      · rename_i e
        cases hsplit.symm.trans e
      · rename_i e
        cases hsplit.symm.trans e
        exact ⟨_, rfl, by rw [String.ofList_toList], rfl⟩
  obtain ⟨f, hf, htoken, hleft⟩ := hfront
  rw [quoted, List.cons_append, List.append_assoc]
  exact readAll_token hf htoken (hleft.symm ▸ hrest)

theorem fraction_append {part : List Char}
    (h : part = [] ∨ ∃ digits, part = '.' :: digits ∧ IsDigits digits) (hends : Ends rest) :
    fraction (part ++ rest) = part := by
  rcases h with rfl | ⟨digits, rfl, hne, hdigits⟩
  · cases rest with
    | nil => rfl
    | cons c rest =>
      rcases hends c rfl with rfl | rfl
      · rfl
      · rfl
  · obtain ⟨c, digits, rfl⟩ := List.exists_cons_of_ne_nil hne
    obtain ⟨htake, _⟩ := Text.takeWhile_run hdigits hends.head_isDigit
    have hfirst := hdigits c List.mem_cons_self
    simp only [List.cons_append, fraction, hfirst, reduceIte] at htake ⊢
    rw [htake]

/-- What begins with a digit has no sign. -/
theorem sign_of_isDigit {c : Char} (h : c.isDigit = true) (text : List Char) : sign (c :: text) = [] := by
  unfold sign
  split
  · rename_i e
    cases e
    cases h
  · rfl

/-- A numeral is split off whole. -/
theorem splitNumber?_append {spelling : List Char} (h : IsNumeral spelling) (hends : Ends rest) :
    splitNumber? (spelling ++ rest) = some (spelling, rest) := by
  obtain ⟨minus, whole, part, rfl, hminus, ⟨hne, hwhole⟩, hpart⟩ := h
  have hdot : ∀ c ∈ (part ++ rest).head?, c.isDigit = false := by
    rcases hpart with rfl | ⟨digits, rfl, _⟩
    · exact hends.head_isDigit
    · rintro _ ⟨⟩
      rfl
  obtain ⟨htake, hdrop⟩ := Text.takeWhile_run hwhole hdot
  have hsign : sign (minus ++ (whole ++ part) ++ rest) = minus := by
    rcases hminus with rfl | rfl
    · obtain ⟨c, digits, rfl⟩ := List.exists_cons_of_ne_nil hne
      exact sign_of_isDigit (hwhole c List.mem_cons_self) _
    · rfl
  have hbody : (minus ++ (whole ++ part) ++ rest).drop minus.length = whole ++ (part ++ rest) := by
    rw [List.append_assoc, List.drop_left, List.append_assoc]
  have hrest : (minus ++ (whole ++ part) ++ rest).drop (minus ++ (whole ++ part)).length = rest :=
    List.drop_left
  have hsome : whole ++ part ≠ [] := fun e => hne (List.append_eq_nil_iff.mp e).1
  simp only [splitNumber?]
  rw [hsign, hbody, htake, hdrop, fraction_append hpart hends, hrest]
  exact if_pos ⟨hsome, hends.isLiteralEnd⟩

/-- Digits are characters of bare names. -/
theorem isIdChar_of_isDigit {c : Char} (h : c.isDigit = true) : isIdChar c = true := by
  have hrange : 48 ≤ c.toNat ∧ c.toNat ≤ 57 := by
    simpa [Char.isDigit, UInt32.le_iff_toNat_le] using h
  have hreserved : ∀ d ∈ reserved, d.isDigit = false := by simp [reserved]
  refine isIdChar_eq_true.mpr ⟨?_, fun hm => ?_⟩
  · simp only [Text.isBlank, Bool.or_eq_false_iff, Bool.and_eq_false_iff, decide_eq_false_iff_not,
      beq_eq_false_iff_ne]
    omega
  · cases h.symm.trans (hreserved c hm)

/-- Where a number stands, it is read. -/
theorem front_number {c : Char} {text spelling : List Char} (h : c = '-' ∨ c.isDigit = true)
    (hsplit : splitNumber? (c :: text) = some (spelling, rest)) (joined : Bool) :
    ∃ f, front joined c text = .ok f ∧ f.token = some (.num (String.ofList spelling)) ∧ f.rest = rest := by
  have hidentifier : isIdChar c = true := by
    rcases h with rfl | h
    · decide
    · exact isIdChar_of_isDigit h
  obtain ⟨hblank, hreserved⟩ := isIdChar_eq_true.mp hidentifier
  have hne (mark : Char) (hm : mark ∈ reserved) : c ≠ mark := fun e => hreserved (e ▸ hm)
  unfold front
  simp only [hblank, Bool.false_eq_true, hne '(' (by decide), hne ')' (by decide), hne '=' (by decide),
    hne '|' (by decide), hne '@' (by decide), hne '/' (by decide), hne '.' (by decide), hne '"' (by decide),
    hne '\'' (by decide), hne '[' (by decide), h, or_self, reduceIte]
  split
  · rename_i e
    cases hsplit.symm.trans e
    exact ⟨_, rfl, rfl, rfl⟩
  · rename_i e
    cases hsplit.symm.trans e

/-- **A numeral is one number.** -/
theorem readAll_numeral {spelling : String} (h : IsNumeral spelling.toList) (hends : Ends rest)
    (hrest : readAll false rest = .ok tail) :
    readAll joined (spelling.toList ++ rest) = .ok (.num spelling :: tail) := by
  have hsplit := splitNumber?_append h hends
  obtain ⟨c, text, hshape, hfirst⟩ :
      ∃ c text, spelling.toList = c :: text ∧ (c = '-' ∨ c.isDigit = true) := by
    obtain ⟨minus, whole, part, hshape, hminus, ⟨hne, hwhole⟩, _⟩ := h
    rcases hminus with rfl | rfl
    · obtain ⟨c, digits, rfl⟩ := List.exists_cons_of_ne_nil hne
      exact ⟨c, digits ++ part, hshape, .inr (hwhole c List.mem_cons_self)⟩
    · exact ⟨'-', whole ++ part, hshape, .inl rfl⟩
  rw [hshape] at hsplit ⊢
  obtain ⟨f, hf, htoken, hleft⟩ := front_number hfirst hsplit joined
  rw [← hshape, String.ofList_toList] at htoken
  exact readAll_token hf htoken (hleft.symm ▸ hrest)

/-- A bare word that ends is read, as what it is where literals end. -/
theorem readAll_bare {c : Char} {word : List Char} (h : IsWord c word) (hends : Ends rest)
    (hrest : readAll false rest = .ok tail) :
    readAll joined (c :: word ++ rest) = .ok (ofWord (c :: word) [] :: tail) := by
  have hword : ofWord (c :: word) rest = ofWord (c :: word) [] := by
    unfold ofWord
    rw [hends.isLiteralEnd]
    rfl
  rw [readAll_word h hends.head_isIdChar, readAll_ends hends hrest, hword]
  rfl

/-- The word `this` is a name wherever it stands. -/
theorem readAll_this (hend : ∀ c ∈ rest.head?, isIdChar c = false) (hrest : readAll true rest = .ok tail) :
    readAll joined (['t', 'h', 'i', 's'] ++ rest) = .ok (.id "this" :: tail) := by
  have hword : ofWord ['t', 'h', 'i', 's'] rest = .id "this" := by
    unfold ofWord
    split
    · rfl
    · rfl
  have h : IsWord 't' ['h', 'i', 's'] := by decide
  rw [readAll_word h hend, hword]
  show (readAll true rest).map _ = _
  rw [hrest]
  rfl

end Token

/-! ## 5. Reading expressions -/

open Token (readAll readAll_mark readAll_dots readAll_dot readAll_ends readAll_bracketed readAll_string
  readAll_numeral readAll_bare readAll_this readAll_blank)

section Lookups

variable {joined : Bool} {rest : List Char} {tail : List Token}

theorem readAll_dotted (hends : Ends rest) (hrest : readAll false rest = .ok tail) :
    ∀ names : List String, (∀ name ∈ names, Bracketable name) →
      readAll true (dotted names ++ rest) = .ok (dottedTokens names ++ tail)
  | [], _ => readAll_ends hends hrest
  | name :: names, h => by
    obtain ⟨hname, hnames⟩ := List.forall_mem_cons.mp h
    have hmore := readAll_dotted hends hrest names hnames
    rw [dotted, List.cons_append, List.append_assoc]
    exact readAll_dot (readAll_bracketed hname hmore)

theorem readAll_named (hends : Ends rest) (hrest : readAll false rest = .ok tail) {names : List String}
    (hne : names ≠ []) (h : ∀ name ∈ names, Bracketable name) :
    readAll joined (named names ++ rest) = .ok (namedTokens names ++ tail) := by
  obtain ⟨name, names, rfl⟩ := List.exists_cons_of_ne_nil hne
  obtain ⟨hname, hnames⟩ := List.forall_mem_cons.mp h
  rw [named, List.append_assoc]
  exact readAll_bracketed hname (readAll_dotted hends hrest names hnames)

theorem readAll_steps (hrest : ∀ joined, readAll joined rest = .ok tail) :
    ∀ (n : Nat) (joined : Bool), readAll joined (steps n ++ rest) = .ok (stepTokens n ++ tail)
  | 0, joined => hrest joined
  | n + 1, joined => by
    have hmore := readAll_steps hrest n false
    exact readAll_dots (readAll_mark (by decide) hmore)

/-- A lookup is cut into its tokens. -/
theorem Lookup.readAll_canonical {l : Lookup} (h : l.Regular) (hends : Ends rest)
    (hrest : readAll false rest = .ok tail) :
    readAll joined (l.canonical ++ rest) = .ok (l.tokens ++ tail) := by
  unfold Lookup.canonical Lookup.tokens
  cases hpinned : l.pinned with
  | true =>
    rw [if_pos rfl, if_pos rfl]
    cases hdepth : l.depth with
    | zero =>
      have hparts := readAll_dotted hends hrest l.parts h.parts
      have hend : ∀ c ∈ (dotted l.parts ++ rest).head?, Token.isIdChar c = false := by
        cases l.parts with
        | nil => exact hends.head_isIdChar
        | cons part parts =>
          rintro _ ⟨⟩
          decide
      rw [List.append_assoc]
      exact readAll_this hend hparts
    | succ above =>
      rw [List.append_assoc, List.append_assoc]
      exact readAll_steps (fun joined => readAll_dots hrest) above joined
  | false =>
    have hnames (joined : Bool) :
        readAll joined (named l.parts ++ rest) = .ok (namedTokens l.parts ++ tail) :=
      readAll_named hends hrest (h.names hpinned) h.parts
    have hsteps (joined : Bool) := readAll_steps hnames l.depth joined
    simp only [Bool.false_eq_true, reduceIte, List.append_assoc]
    cases l.data with
    | false => exact hsteps joined
    | true => exact readAll_mark (by decide) (hsteps false)

end Lookups

/-- Arguments stand behind blanks. -/
theorem ends_arguments {mark : String → Char} {rest : List Char} (hends : Ends rest)
    (params : List Expr) (hash : List (String × Expr)) :
    Ends (paramsCanonical mark params ++ (hashCanonical mark hash ++ rest)) := by
  cases params with
  | cons param params => exact ends_blank _
  | nil =>
    cases hash with
    | cons field hash => exact ends_blank _
    | nil => exact hends

section Expressions

variable {mark : String → Char}

mutual

/-- **An expression is cut into its tokens**, whatever stands before it. -/
theorem Expr.readAll_canonical : ∀ e : Expr, e.Regular mark → ∀ (joined : Bool) {rest : List Char}
    {tail : List Token}, Ends rest → readAll false rest = .ok tail →
    readAll joined (e.canonical mark ++ rest) = .ok (e.tokens ++ tail)
  | .lookup l, h, _, _, _, hends, hrest => l.readAll_canonical h hends hrest
  | .str value, ⟨hmark, hfree, hslash⟩, _, _, _, hends, hrest => readAll_string hmark hfree hslash hrest
  | .num spelling, h, _, _, _, hends, hrest => readAll_numeral h hends hrest
  | .bool true, _, _, _, _, hends, hrest => by
    have hword : Token.IsWord 't' ['r', 'u', 'e'] := by decide
    exact readAll_bare hword hends hrest
  | .bool false, _, _, _, _, hends, hrest => by
    have hword : Token.IsWord 'f' ['a', 'l', 's', 'e'] := by decide
    exact readAll_bare hword hends hrest
  | .null, _, _, _, _, hends, hrest => by
    have hword : Token.IsWord 'n' ['u', 'l', 'l'] := by decide
    exact readAll_bare hword hends hrest
  | .undefined, _, _, _, _, hends, hrest => by
    have hword : Token.IsWord 'u' ['n', 'd', 'e', 'f', 'i', 'n', 'e', 'd'] := by decide
    exact readAll_bare hword hends hrest
  | .sub call, h, _, rest, _, hends, hrest => by
    have hclose : readAll false (')' :: rest) = .ok (.closeParen :: _) :=
      readAll_mark (by decide) (readAll_ends hends hrest)
    have hcall := Call.readAll_canonical call h false (ends_close rest) hclose
    simp only [Expr.canonical, Expr.tokens, List.cons_append, List.append_assoc, List.nil_append]
    exact readAll_mark (by decide) hcall

theorem Call.readAll_canonical : ∀ call : CallOf Expr, Call.Regular mark call → ∀ (joined : Bool)
    {rest : List Char} {tail : List Token}, Ends rest → readAll false rest = .ok tail →
    readAll joined (Call.canonical mark call ++ rest) = .ok (Call.tokens call ++ tail)
  | ⟨callee, params, hash, _⟩, ⟨hcallee, hparams, hhash⟩, _, rest, _, hends, hrest => by
    have hfields := readAll_hash hash hhash hends hrest
    have harguments := readAll_params params hparams (ends_arguments hends [] hash) hfields
    rw [Call.canonical, Call.tokens, List.append_assoc, List.append_assoc, List.append_assoc,
      List.append_assoc]
    exact callee.readAll_canonical hcallee _ (ends_arguments hends params hash) harguments

theorem readAll_params : ∀ params : List Expr, paramsRegular mark params → ∀ {rest : List Char}
    {tail : List Token}, Ends rest → readAll false rest = .ok tail →
    readAll false (paramsCanonical mark params ++ rest) = .ok (paramsTokens params ++ tail)
  | [], _, _, _, _, hrest => hrest
  | param :: params, ⟨hparam, hparams⟩, rest, _, hends, hrest => by
    have hmore := readAll_params params hparams hends hrest
    rw [paramsCanonical, paramsTokens, List.cons_append, List.append_assoc, List.append_assoc,
      readAll_blank (by decide)]
    exact param.readAll_canonical hparam _ (ends_arguments hends params []) hmore

theorem readAll_hash : ∀ hash : List (String × Expr), hashRegular mark hash → ∀ {rest : List Char}
    {tail : List Token}, Ends rest → readAll false rest = .ok tail →
    readAll false (hashCanonical mark hash ++ rest) = .ok (hashTokens hash ++ tail)
  | [], _, _, _, _, hrest => hrest
  | (key, value) :: hash, ⟨hkey, hvalue, hhash⟩, rest, _, hends, hrest => by
    have hmore := readAll_hash hash hhash hends hrest
    have hread : readAll false (value.canonical mark ++ (hashCanonical mark hash ++ rest)) =
        .ok (value.tokens ++ (hashTokens hash ++ _)) :=
      value.readAll_canonical hvalue _ (ends_arguments hends [] hash) hmore
    rw [hashCanonical, hashTokens, List.cons_append, List.append_assoc, List.cons_append,
      List.append_assoc, readAll_blank (by decide)]
    simp only [List.cons_append, List.append_assoc]
    exact readAll_bracketed hkey (readAll_mark (by decide) hread)

end

/-- **A canonical spelling is cut into its tokens.** -/
theorem tokenize_canonical {call : Call} (h : Call.Regular mark call) :
    Token.tokenize (Call.canonical mark call) = .ok (Call.tokens call) := by
  have hread : readAll false (Call.canonical mark call ++ []) = .ok (Call.tokens call ++ []) :=
    Call.readAll_canonical call h _ ends_nil (Token.readAll_nil false)
  rwa [List.append_nil, List.append_nil] at hread

end Expressions

end Stache
