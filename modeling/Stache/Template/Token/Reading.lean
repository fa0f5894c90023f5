import Stache.Template.Fault
import Stache.Text.Blank

/-!
# Reading tokens

`tokenize` reads the inside of a tag from left to right. The only context it needs is whether a name or
a closing parenthesis ends exactly where it stands: there a dot separates segments, and anywhere else a
single dot is the name `this`.

* `isIdChar` tells the characters of bare names, `isLiteralEnd` where a word may count as a literal;
* `splitNumber?` reads a number: an optional minus, digits, and an optional fraction, of which the
  digits or the fraction may be missing.
-/

namespace Stache.Token

/-! ## 1. Words -/

/-- The characters that no bare name holds, blanks apart. -/
def reserved : List Char :=
  ['!', '"', '#', '%', '&', '\'', '(', ')', '*', '+', ',', '.', '/', ';', '<', '=', '>', '@', '[',
    '\\', ']', '^', '\x60', '\x7b', '|', '\x7d', '~']

/-- A character of a bare name. -/
def isIdChar (c : Char) : Bool :=
  !Text.isBlank c && !reserved.contains c

/-- A literal word or a number ends where `rest` begins. -/
def isLiteralEnd (rest : List Char) : Bool :=
  match rest with
  | [] => true
  | c :: _ => Text.isBlank c || c == ')' || c == '\x7d' || c == '~' || c == '|'

/-- The token of a bare word, which is a literal only where literals end. -/
def ofWord (word : List Char) (rest : List Char) : Token :=
  if isLiteralEnd rest then
    if word = ['t', 'r', 'u', 'e'] then .bool true
    else if word = ['f', 'a', 'l', 's', 'e'] then .bool false
    else if word = ['n', 'u', 'l', 'l'] then .null
    else if word = ['u', 'n', 'd', 'e', 'f', 'i', 'n', 'e', 'd'] then .undefined
    else .id (String.ofList word)
  else .id (String.ofList word)

/-! ## 2. Numbers -/

/-- The fraction that a text begins with: a dot and at least one digit. Empty when there is none. -/
def fraction (text : List Char) : List Char :=
  match text with
  | '.' :: c :: rest => if c.isDigit then '.' :: (c :: rest).takeWhile Char.isDigit else []
  | _ => []

/-- The sign that a text begins with. -/
def sign (text : List Char) : List Char :=
  match text with
  | '-' :: _ => ['-']
  | _ => []

/-- The number that a text begins with, if it begins with one that ends there. -/
def splitNumber? (text : List Char) : Option (List Char × List Char) :=
  let body := text.drop (sign text).length
  let unsigned := body.takeWhile Char.isDigit ++ fraction (body.dropWhile Char.isDigit)
  let spelling := sign text ++ unsigned
  let rest := text.drop spelling.length
  if unsigned ≠ [] ∧ isLiteralEnd rest then some (spelling, rest) else none

/-- A number is not empty. -/
theorem length_of_splitNumber? {text spelling rest : List Char}
    (h : splitNumber? text = some (spelling, rest)) : rest.length < text.length := by
  simp only [splitNumber?] at h
  split at h
  · rename_i hd
    simp only [Option.some.injEq, Prod.mk.injEq] at h
    obtain ⟨rfl, rfl⟩ := h
    have hne := List.length_pos_iff.2 hd.1
    have ht : 0 < text.length := by
      cases text with
      | nil => simp [fraction] at hne
      | cons => simp
    simp only [List.length_drop, List.length_append] at *
    omega
  · simp at h

/-! ## 3. Strings and bracketed names -/

/-- The value of a string whose opening quote has been read, and what follows its closing quote. A
    backslash before the quote makes it part of the value. -/
def splitString? (mark : Char) : List Char → Option (List Char × List Char)
  | [] => none
  | c :: text =>
    if c = '\\' ∧ text.head? = some mark then
      (splitString? mark text.tail).map fun (value, rest) => (mark :: value, rest)
    else if c = mark then some ([], text)
    else (splitString? mark text).map fun (value, rest) => (c :: value, rest)
termination_by text => text.length
decreasing_by all_goals simp [List.length_tail]; try omega

/-- A string ends in the text that it was read from. -/
theorem length_of_splitString? {mark : Char} {text value rest : List Char}
    (h : splitString? mark text = some (value, rest)) : rest.length < text.length := by
  fun_induction splitString? mark text generalizing value rest with
  | case1 => simp at h
  | case2 c text _ ih =>
    obtain ⟨⟨v, r⟩, hr, he⟩ := Option.map_eq_some_iff.1 h
    simp only [Prod.mk.injEq] at he
    obtain ⟨rfl, rfl⟩ := he
    have := ih hr
    simp only [List.length_tail] at this
    simp only [List.length_cons]
    omega
  | case3 c text =>
    simp only [Option.some.injEq, Prod.mk.injEq] at h
    obtain ⟨rfl, rfl⟩ := h
    simp
  | case4 c text _ _ ih =>
    obtain ⟨⟨v, r⟩, hr, he⟩ := Option.map_eq_some_iff.1 h
    simp only [Prod.mk.injEq] at he
    obtain ⟨rfl, rfl⟩ := he
    have := ih hr
    simp only [List.length_cons]
    omega

/-- A name in brackets whose opening bracket has been read, and what follows the closing bracket. -/
def splitBracket? : List Char → Option (List Char × List Char)
  | [] => none
  | c :: text =>
    if c = ']' then some ([], text)
    else (splitBracket? text).map fun (name, rest) => (c :: name, rest)

/-- A bracketed name ends in the text that it was read from. -/
theorem length_of_splitBracket? {text name rest : List Char}
    (h : splitBracket? text = some (name, rest)) : rest.length < text.length := by
  induction text generalizing name rest with
  | nil => simp [splitBracket?] at h
  | cons c text ih =>
    simp only [splitBracket?] at h
    split at h
    · simp only [Option.some.injEq, Prod.mk.injEq] at h
      obtain ⟨rfl, rfl⟩ := h
      simp
    · obtain ⟨⟨n, r⟩, hr, he⟩ := Option.map_eq_some_iff.1 h
      simp only [Prod.mk.injEq] at he
      obtain ⟨rfl, rfl⟩ := he
      have := ih hr
      simp only [List.length_cons]
      omega

/-! ## 4. One token -/

/-- What stands at the front of a text: a blank, or a token. -/
structure Front (text : List Char) where
  /-- The token, or none for a blank. -/
  token : Option Token
  /-- What follows. -/
  rest : List Char
  /-- Something was read. -/
  shorter : rest.length < text.length

/-- The bare word at the front of a text that begins with one of its characters. -/
def wordFront (c : Char) (text : List Char) : Front (c :: text) :=
  let rest := text.dropWhile isIdChar
  ⟨some (ofWord (c :: text.takeWhile isIdChar) rest), rest, by
    have := (List.dropWhile_sublist (l := text) isIdChar).length_le
    simp only [List.length_cons]
    show (text.dropWhile isIdChar).length < text.length + 1
    omega⟩

/-- Reads one token or one blank. `joined` tells that a name or a closing parenthesis ends here. -/
def front (joined : Bool) (c : Char) (text : List Char) : Except Fault (Front (c :: text)) :=
  if Text.isBlank c then .ok ⟨none, text, by simp⟩
  else if c = '(' then .ok ⟨some .openParen, text, by simp⟩
  else if c = ')' then .ok ⟨some .closeParen, text, by simp⟩
  else if c = '=' then .ok ⟨some .equals, text, by simp⟩
  else if c = '|' then .ok ⟨some .pipe, text, by simp⟩
  else if c = '@' then .ok ⟨some .at, text, by simp⟩
  else if c = '/' then .ok ⟨some (.sep .slash), text, by simp⟩
  else if c = '.' then
    match text with
    | '.' :: rest => .ok ⟨some .dotDot, rest, by simp only [List.length_cons]; omega⟩
    | rest => .ok ⟨some (if joined then .sep .dot else .id "this"), rest, by simp⟩
  else if c = '"' ∨ c = '\'' then
    match h : splitString? c text with
    | none => .error .unterminatedString
    | some (value, rest) =>
      .ok ⟨some (.str (String.ofList value)), rest, by
        have := length_of_splitString? h
        simp only [List.length_cons]
        omega⟩
  else if c = '[' then
    match h : splitBracket? text with
    | none => .error .unterminatedSegment
    | some (name, rest) =>
      .ok ⟨some (.id (String.ofList name)), rest, by
        have := length_of_splitBracket? h
        simp only [List.length_cons]
        omega⟩
  else if c = '-' ∨ c.isDigit then
    match h : splitNumber? (c :: text) with
    | some (spelling, rest) =>
      .ok ⟨some (.num (String.ofList spelling)), rest, length_of_splitNumber? h⟩
    | none => .ok (wordFront c text)
  else if isIdChar c then .ok (wordFront c text)
  else .error (.unexpectedCharacter c)

/-! ## 5. All tokens -/

/-- A dot right after this token separates segments. -/
def joins : Option Token → Bool
  | some (.id _) => true
  | some .closeParen => true
  | _ => false

/-- Reads tokens to the end. -/
def readAll (joined : Bool) (text : List Char) : Except Fault (List Token) :=
  match text with
  | [] => .ok []
  | c :: text => do
    let f ← front joined c text
    let tokens ← readAll (joins f.token) f.rest
    return f.token.toList ++ tokens
termination_by text.length
decreasing_by exact f.shorter

/-- The tokens of the inside of a tag. -/
def tokenize (inner : List Char) : Except Fault (List Token) :=
  readAll false inner

end Stache.Token
