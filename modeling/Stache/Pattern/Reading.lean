import Stache.Pattern.Basic
import Stache.Text.Cut

/-!
# Reading patterns

The spelling of a pattern is first cut into marks: rules that are complete in themselves, repetitions,
parentheses and bars. `nest` then puts the marks together, with one frame for every open parenthesis.

Groups are `( )` and `(?: )`. Sets are written `[a-z]` and `[^a-z]`; they may hold sets, and `&&`, `--` and
`~~` stand between parts of a set. Repetitions are `*`, `+`, `?` and counts in braces, each of them followed by
a `?` if it is meant to be lazy, which makes no difference to whether something is found.

Look-around is refused, as it is everywhere. Three forms are refused that other readers of such patterns know:
flags as in `(?i)`, names of groups as in `(?P<n>a)`, and the properties of characters that are written `\p`
and `\P`.
-/

namespace Stache

/-- Why a pattern is rejected. -/
inductive PatternFault where
  /-- A group without its closing parenthesis. -/
  | unclosedGroup
  /-- A closing parenthesis without its group. -/
  | unopenedGroup
  /-- A set without its closing bracket. -/
  | unclosedSet
  /-- A range whose ends are not two characters in order. -/
  | invalidRange
  /-- A repetition of nothing. -/
  | danglingRepetition
  /-- A count that is not made of digits or not closed. -/
  | invalidCount
  /-- A backslash with nothing behind it, or before a character that it does not go with. -/
  | invalidEscape
  /-- A look-ahead or look-behind. -/
  | lookAround
  /-- A group with flags or a name. -/
  | unsupportedGroup
  deriving DecidableEq, Repr

/-- The wording of a fault. -/
def PatternFault.message : PatternFault → String
  | .unclosedGroup => "unclosed group"
  | .unopenedGroup => "unopened group"
  | .unclosedSet => "unclosed character class"
  | .invalidRange => "invalid character class range"
  | .danglingRepetition => "repetition operator missing expression"
  | .invalidCount => "invalid repetition count"
  | .invalidEscape => "unrecognized escape sequence"
  | .lookAround => "look-around is not supported"
  | .unsupportedGroup => "flags and names of groups are not supported"

/-- Something read from the front of a text, and what is left. -/
structure Taken (α : Type) (text : List Char) where
  /-- What was read. -/
  value : α
  /-- What is left. -/
  rest : List Char
  /-- Something was read. -/
  shorter : rest.length < text.length

/-- What was read from the front of a text is also read from a longer one. -/
def Taken.within {α : Type} {text longer : List Char} (taken : Taken α text)
    (h : text.length ≤ longer.length) : Taken α longer :=
  ⟨taken.value, taken.rest, Nat.lt_of_lt_of_le taken.shorter h⟩

/-- What was read, changed. -/
def Taken.map {α β : Type} {text : List Char} (f : α → β) (taken : Taken α text) : Taken β text :=
  ⟨f taken.value, taken.rest, taken.shorter⟩

/-- What follows a character is shorter. -/
theorem length_lt_cons (c : Char) (text : List Char) : text.length < (c :: text).length :=
  Nat.lt_succ_self _

/-- It is not longer. -/
theorem length_le_cons (c : Char) (text : List Char) : text.length ≤ (c :: text).length :=
  Nat.le_succ _

/-! ## 1. Escapes -/

/-- What an escape stands for. -/
inductive Escape where
  /-- One character. -/
  | char (c : Char)
  /-- A set of characters. -/
  | set (s : CharSet)
  /-- A condition on the place. -/
  | anchor (a : Anchor)

/-- What a backslash and one more character stand for. All of ASCII but the letters and digits stands for
    itself. -/
def Escape.ofChar? (c : Char) : Option Escape :=
  match c with
  | 'd' => some (.set (.ofClass .digit))
  | 'D' => some (.set (.except (.ofClass .digit)))
  | 's' => some (.set (.ofClass .blank))
  | 'S' => some (.set (.except (.ofClass .blank)))
  | 'w' => some (.set (.ofClass .word))
  | 'W' => some (.set (.except (.ofClass .word)))
  | 'b' => some (.anchor .wordEdge)
  | 'B' => some (.anchor .noWordEdge)
  | '<' => some (.anchor .wordStart)
  | '>' => some (.anchor .wordEnd)
  | 'A' => some (.anchor .start)
  | 'z' => some (.anchor .finish)
  | 'n' => some (.char '\n')
  | 't' => some (.char '\t')
  | 'r' => some (.char '\r')
  | 'f' => some (.char '\x0c')
  | 'v' => some (.char '\x0b')
  | 'a' => some (.char '\x07')
  | c => if c.toNat < 128 ∧ !c.isAlphanum then some (.char c) else none

/-- The value of a hexadecimal digit. -/
def hexDigitValue? (c : Char) : Option Nat :=
  if c.isDigit then some (c.toNat - '0'.toNat)
  else if 'a' ≤ c ∧ c ≤ 'f' then some (c.toNat - 'a'.toNat + 10)
  else if 'A' ≤ c ∧ c ≤ 'F' then some (c.toNat - 'A'.toNat + 10)
  else none

/-- The character whose code hexadecimal digits spell. -/
def charOfHex? (digits : List Char) : Option Char := do
  let code ← digits.foldlM (fun n c => do return 16 * n + (← hexDigitValue? c)) 0
  if h : code.isValidChar ∧ digits ≠ [] then some (Char.ofNatAux code h.1) else none

/-- The number of digits of a code without braces, by the letter before it. -/
def codeLength? : Char → Option Nat
  | 'x' => some 2
  | 'u' => some 4
  | 'U' => some 8
  | _ => none

/-- Reads the code of a character: digits in braces, or a fixed number of digits. -/
def readCode (length : Nat) (text : List Char) : Option (Char × List Char) :=
  match text with
  | '\x7b' :: text => do
    let (digits, rest) ← Text.cut? ['\x7d'] text
    return (← charOfHex? digits, rest)
  | text =>
    if text.length < length then none
    else (charOfHex? (text.take length)).map fun c => (c, text.drop length)

/-- A code leaves no more than there was. -/
theorem length_of_readCode {length : Nat} {text rest : List Char} {c : Char}
    (h : readCode length text = some (c, rest)) : rest.length ≤ text.length := by
  unfold readCode at h
  split at h
  · obtain ⟨⟨digits, behind⟩, hcut, h⟩ := Option.bind_eq_some_iff.1 h
    obtain ⟨_, _, h⟩ := Option.bind_eq_some_iff.1 h
    simp only [Option.pure_def, Option.some.injEq, Prod.mk.injEq] at h
    rw [Text.append_of_cut? hcut, ← h.2]
    simp only [List.length_append, List.length_cons]
    omega
  · split at h
    · simp at h
    · obtain ⟨_, _, h⟩ := Option.map_eq_some_iff.1 h
      simp only [Prod.mk.injEq] at h
      rw [← h.2]
      simp

/-- With the letter before it, a code leaves less. -/
theorem lt_of_readCode (letter : Char) {length : Nat} {text rest : List Char} {c : Char}
    (h : readCode length text = some (c, rest)) : rest.length < (letter :: text).length :=
  Nat.lt_succ_of_le (length_of_readCode h)

/-- Reads an escape behind its backslash. -/
def readEscape (text : List Char) : Except PatternFault (Taken Escape text) :=
  match text with
  | [] => .error .invalidEscape
  | c :: text =>
    match codeLength? c with
    | none =>
      match Escape.ofChar? c with
      | some escape => .ok ⟨escape, text, length_lt_cons c text⟩
      | none => .error .invalidEscape
    | some length =>
      match h : readCode length text with
      | some (read, rest) => .ok ⟨.char read, rest, lt_of_readCode c h⟩
      | none => .error .invalidEscape

/-! ## 2. Items of sets -/

/-- Reads a character or an escape. -/
def readPrimitive (text : List Char) : Except PatternFault (Taken Escape text) :=
  match text with
  | [] => .error .unclosedSet
  | '\\' :: text => do return (← readEscape text).within (length_le_cons '\\' text)
  | c :: text => .ok ⟨.char c, text, length_lt_cons c text⟩

/-- The set that a single primitive stands for. -/
def Escape.asSet : Escape → Except PatternFault CharSet
  | .char c => .ok (.single c)
  | .set s => .ok s
  | .anchor _ => .error .invalidEscape

/-- The set between two primitives, which have to be characters in order. -/
def rangeBetween : Escape → Escape → Except PatternFault CharSet
  | .char first, .char last =>
    if first ≤ last then .ok (.range first last) else .error .invalidRange
  | _, _ => .error .invalidRange

/-- Reads an item: a primitive, or a range between two. A dash before a bracket or another dash does not
    make a range. -/
def readItem (text : List Char) : Except PatternFault (Taken CharSet text) := do
  let first ← readPrimitive text
  match h : first.rest with
  | '-' :: rest =>
    if rest.head? = some ']' ∨ rest.head? = some '-' then
      return ⟨← first.value.asSet, first.rest, first.shorter⟩
    else
      let last ← readPrimitive rest
      return ⟨← rangeBetween first.value last.value, last.rest, by
        have := first.shorter
        have := last.shorter
        simp only [h, List.length_cons] at *
        omega⟩
  | _ => return ⟨← first.value.asSet, first.rest, first.shorter⟩

/-- The sets that are written `[:name:]` inside brackets. -/
def namedSet? (name : String) : Option CharSet :=
  let lower := CharSet.range 'a' 'z'
  let upper := CharSet.range 'A' 'Z'
  let digit := CharSet.range '0' '9'
  let alpha := CharSet.either lower upper
  match name with
  | "alnum" => some (.either alpha digit)
  | "alpha" => some alpha
  | "ascii" => some (.range '\x00' '\x7f')
  | "blank" => some (.either (.single '\t') (.single ' '))
  | "cntrl" => some (.either (.range '\x00' '\x1f') (.single '\x7f'))
  | "digit" => some digit
  | "graph" => some (.range '!' '~')
  | "lower" => some lower
  | "print" => some (.range ' ' '~')
  | "punct" => some (.minus (.range '!' '~') (.either alpha digit))
  | "space" => some (.either (.range '\t' '\r') (.single ' '))
  | "upper" => some upper
  | "word" => some (.either (.either alpha digit) (.single '_'))
  | "xdigit" => some (.either digit (.either (.range 'a' 'f') (.range 'A' 'F')))
  | _ => none

/-- The set with a name, which a `^` negates. -/
def signedSet? (name : List Char) : Option CharSet :=
  match name with
  | '^' :: name => (namedSet? (String.ofList name)).map .except
  | name => namedSet? (String.ofList name)

/-- The set that is written `[:name:]`, read behind its first bracket. -/
def setName? (text : List Char) : Option (CharSet × List Char) :=
  match text with
  | ':' :: name =>
    match Text.cut? [':', ']'] name with
    | some (name, rest) => (signedSet? name).map fun set => (set, rest)
    | none => none
  | _ => none

/-- A named set is not empty. -/
theorem setName?_shorter {text rest : List Char} {set : CharSet}
    (h : setName? text = some (set, rest)) : rest.length < text.length := by
  unfold setName? at h
  split at h
  · split at h
    · rename_i name _ _ hcut
      obtain ⟨_, _, he⟩ := Option.map_eq_some_iff.1 h
      cases he
      rw [Text.append_of_cut? hcut]
      simp only [List.length_cons, List.length_append]
      omega
    · simp at h
  · simp at h

/-! ## 3. Sets -/

/-- What is made of two sets. -/
inductive SetOperation where
  /-- What is in both. -/
  | both
  /-- What is in the first alone. -/
  | minus
  /-- What is in one of them alone. -/
  | oneOf

/-- The set that an operation makes. -/
def SetOperation.apply : SetOperation → CharSet → CharSet → CharSet
  | .both, a, b => a.both b
  | .minus, a, b => a.minus b
  | .oneOf, a, b => .either (a.minus b) (b.minus a)

/-- The operation between the parts of a set, and what is left behind it. -/
def setOperation? : List Char → Option (SetOperation × List Char)
  | '&' :: '&' :: text => some (.both, text)
  | '-' :: '-' :: text => some (.minus, text)
  | '~' :: '~' :: text => some (.oneOf, text)
  | _ => none

/-- An operation is not empty. -/
theorem length_of_setOperation? {text rest : List Char} {operation : SetOperation}
    (h : setOperation? text = some (operation, rest)) : rest.length < text.length := by
  unfold setOperation? at h
  split at h <;> simp only [Option.some.injEq, Prod.mk.injEq, reduceCtorEq] at h <;>
    simp only [← h.2, List.length_cons] <;> omega

/-- A set that has not ended. -/
structure OpenSet where
  /-- All other characters are meant. -/
  negated : Bool
  /-- What was made of the parts before, and the operation that waits for the part that is read. -/
  before : Option (SetOperation × CharSet) := none
  /-- The items of the part that is read. -/
  items : CharSet := .none

namespace OpenSet

/-- What has been read, not negated. -/
def made (s : OpenSet) : CharSet :=
  match s.before with
  | none => s.items
  | some (operation, before) => operation.apply before s.items

/-- The set that has been read. -/
def whole (s : OpenSet) : CharSet :=
  if s.negated then .except s.made else s.made

/-- One more item. -/
def add (s : OpenSet) (item : CharSet) : OpenSet :=
  { s with items := .either s.items item }

/-- An operation, behind which another part begins. -/
def operate (s : OpenSet) (operation : SetOperation) : OpenSet :=
  ⟨s.negated, some (operation, s.made), .none⟩

/-- The dashes at the beginning stand for themselves, and so does a bracket if there are none. -/
def begin (negated : Bool) (text : List Char) : OpenSet × List Char :=
  match text with
  | ']' :: rest => (⟨negated, none, .single ']'⟩, rest)
  | '-' :: rest => (⟨negated, none, .single '-'⟩, rest.dropWhile (· = '-'))
  | text => (⟨negated, none, .none⟩, text)

/-- The beginning of a set, read behind its bracket. -/
def read (text : List Char) : OpenSet × List Char :=
  match text with
  | '^' :: text => begin true text
  | text => begin false text

/-- Nothing is added. -/
theorem length_begin (negated : Bool) (text : List Char) :
    (begin negated text).2.length ≤ text.length := by
  unfold begin
  split
  · simp
  · exact Nat.le_succ_of_le (List.dropWhile_suffix _).length_le
  · exact Nat.le_refl _

/-- Nothing is added. -/
theorem length_read (text : List Char) : (read text).2.length ≤ text.length := by
  unfold read
  split
  · exact Nat.le_succ_of_le (length_begin true _)
  · exact length_begin false text

end OpenSet

/-- Reads a set inside others to its end, and those to theirs. -/
def readSet (inner : OpenSet) (outer : List OpenSet) (text : List Char) :
    Except PatternFault (Taken CharSet text) :=
  match text with
  | [] => .error .unclosedSet
  | ']' :: rest =>
    match outer with
    | [] => .ok ⟨inner.whole, rest, by simp⟩
    | around :: outer => do
      return (← readSet (around.add inner.whole) outer rest).within (by simp)
  | '[' :: rest =>
    match named : setName? rest with
    | some (set, behind) => do
      have := setName?_shorter named
      return (← readSet (inner.add set) outer behind).within (by simp only [List.length_cons]; omega)
    | none => do
      have := OpenSet.length_read rest
      return (← readSet (OpenSet.read rest).1 (inner :: outer) (OpenSet.read rest).2).within
        (by simp only [List.length_cons]; omega)
  | text =>
    match joined : setOperation? text with
    | some (operation, rest) => do
      have := length_of_setOperation? joined
      return (← readSet (inner.operate operation) outer rest).within (by omega)
    | none => do
      let item ← readItem text
      have := item.shorter
      return (← readSet (inner.add item.value) outer item.rest).within (by omega)
termination_by text.length
decreasing_by all_goals (try simp only [List.length_cons]); omega

/-! ## 4. Marks -/

/-- A part of the spelling of a pattern. -/
inductive Mark where
  /-- A rule that is complete in itself. -/
  | rule (r : Rule)
  /-- The rule before it is repeated. -/
  | repeated (least : Nat) (most : Option Nat)
  /-- A group begins. -/
  | openGroup
  /-- A group ends. -/
  | closeGroup
  /-- Another choice begins. -/
  | bar

/-- What is left behind the `?` of a lazy repetition. -/
def dropLazy : List Char → List Char
  | '?' :: rest => rest
  | rest => rest

/-- Dropping adds nothing. -/
theorem length_dropLazy (text : List Char) : (dropLazy text).length ≤ text.length := by
  unfold dropLazy
  split <;> simp

/-- The number that digits spell, if it has thirty-two bits. Blanks around them do not count. -/
def countOf? (text : List Char) : Option Nat :=
  let digits := Text.trim text
  let n := digits.foldl (fun n c => 10 * n + (c.toNat - '0'.toNat)) 0
  if digits = [] || !digits.all Char.isDigit || Nat.pow 2 32 ≤ n then none else some n

/-- The repetition that the inside of braces asks for: `n`, `n,` or `n,m`. -/
def repetitionOf? (inside : List Char) : Option Mark :=
  match Text.cut? [','] inside with
  | none => (countOf? inside).map fun n => .repeated n (some n)
  | some (least, []) => (countOf? least).map fun n => .repeated n none
  | some (least, most) =>
    match countOf? least, countOf? most with
    | some n, some m => if n ≤ m then some (.repeated n (some m)) else none
    | _, _ => none

/-- The rule that an escape stands for. -/
def Escape.rule : Escape → Rule
  | .char c => .one (.single c)
  | .set s => .one s
  | .anchor a => .anchor a

/-- Why a group is refused that begins with `(?` and this text. -/
def groupFault : List Char → PatternFault
  | '=' :: _ | '!' :: _ | '<' :: '=' :: _ | '<' :: '!' :: _ => .lookAround
  | _ => .unsupportedGroup

/-- Reads one mark. -/
def readMark (text : List Char) (h : text ≠ []) : Except PatternFault (Taken Mark text) :=
  match text with
  | '\\' :: rest => do
    return ((← readEscape rest).map fun e => .rule e.rule).within (by simp)
  | '[' :: rest => do
    have := OpenSet.length_read rest
    return ((← readSet (OpenSet.read rest).1 [] (OpenSet.read rest).2).map fun set =>
      .rule (.one set)).within (by simp only [List.length_cons]; omega)
  | '(' :: '?' :: ':' :: rest =>
    .ok ⟨.openGroup, rest, by simp only [List.length_cons]; omega⟩
  | '(' :: '?' :: rest => .error (groupFault rest)
  | '(' :: rest => .ok ⟨.openGroup, rest, by simp⟩
  | ')' :: rest => .ok ⟨.closeGroup, rest, by simp⟩
  | '|' :: rest => .ok ⟨.bar, rest, by simp⟩
  | '*' :: rest => .ok ⟨.repeated 0 none, dropLazy rest, Nat.lt_succ_of_le (length_dropLazy rest)⟩
  | '+' :: rest => .ok ⟨.repeated 1 none, dropLazy rest, Nat.lt_succ_of_le (length_dropLazy rest)⟩
  | '?' :: rest =>
    .ok ⟨.repeated 0 (some 1), dropLazy rest, Nat.lt_succ_of_le (length_dropLazy rest)⟩
  | '\x7b' :: rest =>
    match hcut : Text.cut? ['\x7d'] rest with
    | none => .error .invalidCount
    | some (inside, behind) =>
      match repetitionOf? inside with
      | none => .error .invalidCount
      | some mark => .ok ⟨mark, dropLazy behind, by
          have := length_dropLazy behind
          rw [Text.append_of_cut? hcut]
          simp only [List.length_cons, List.length_append]
          omega⟩
  | '^' :: rest => .ok ⟨.rule (.anchor .start), rest, by simp⟩
  | '$' :: rest => .ok ⟨.rule (.anchor .finish), rest, by simp⟩
  | '.' :: rest => .ok ⟨.rule (.one .anyInLine), rest, by simp⟩
  | c :: rest => .ok ⟨.rule (.one (.single c)), rest, by simp⟩
  | [] => absurd rfl h

/-- Reads all marks. -/
def readMarks (text : List Char) : Except PatternFault (List Mark) := do
  if h : text = [] then return []
  else
    let first ← readMark text h
    have := first.shorter
    return first.value :: (← readMarks first.rest)
termination_by text.length

/-! ## 5. Groups -/

/-- What has been read of a group: the choices before the present one, the rules before the last one, and
    the last rule, which a repetition would repeat. -/
structure Frame where
  /-- The choices before the present one. -/
  before : Option Rule
  /-- The rules of the present choice before the last one. -/
  front : Rule
  /-- The last rule. -/
  last : Option Rule

namespace Frame

/-- Nothing has been read. -/
def start : Frame := ⟨none, .empty, none⟩

/-- The rule of the present choice. -/
def choice (frame : Frame) : Rule :=
  match frame.last with
  | none => frame.front
  | some last => frame.front.followedBy last

/-- The rule of the group. -/
def whole (frame : Frame) : Rule :=
  match frame.before with
  | none => frame.choice
  | some before => .alt before frame.choice

/-- One more rule. -/
def push (frame : Frame) (rule : Rule) : Frame :=
  ⟨frame.before, frame.choice, some rule⟩

/-- The group goes on with another choice. -/
def nextChoice (frame : Frame) : Frame :=
  ⟨some frame.whole, .empty, none⟩

/-- The last rule is repeated. -/
def repeatLast (frame : Frame) (least : Nat) (most : Option Nat) : Except PatternFault Frame :=
  match frame.last with
  | none => .error .danglingRepetition
  | some last =>
    let repeated := match most with
      | none => last.atLeast least
      | some most => last.times least (most - least)
    .ok ⟨frame.before, frame.front, some repeated⟩

end Frame

/-- Puts marks together: the group that is read, and the groups around it from the inside out. -/
def nest (inner : Frame) (outer : List Frame) : List Mark → Except PatternFault Rule
  | [] => if outer.isEmpty then .ok inner.whole else .error .unclosedGroup
  | .rule r :: marks => nest (inner.push r) outer marks
  | .repeated least most :: marks => do nest (← inner.repeatLast least most) outer marks
  | .openGroup :: marks => nest .start (inner :: outer) marks
  | .closeGroup :: marks =>
    match outer with
    | [] => .error .unopenedGroup
    | around :: outer => nest (around.push inner.whole) outer marks
  | .bar :: marks => nest inner.nextChoice outer marks

/-- Reads a pattern. -/
def Pattern.read (text : String) : Except PatternFault Pattern := do
  let marks ← readMarks text.toList
  return ⟨text, ← nest .start [] marks⟩

end Stache
