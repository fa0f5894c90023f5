import Stache.Text.Alphanumeric
import Stache.Text.Blank
import Stache.Text.Digit

/-!
# Patterns

Regular expressions with anchors, searched for anywhere in a text. The search follows what remains to be
matched for every place where a match may have begun: after one more character, what remains of a rule
are finitely many rules (`Rule.remains`), so one pass over the text is enough.

Anchors look at the characters on both sides of a place, so every step is told the character before it.
-/

namespace Stache

/-! ## 1. Characters -/

/-- Classes of characters that have a name. -/
inductive CharClass where
  /-- Decimal digits. -/
  | digit
  /-- White space. -/
  | blank
  /-- Characters of words: letters, numbers and the underscore. -/
  | word
  deriving DecidableEq, Repr

/-- The class holds the character. -/
def CharClass.has : CharClass → Char → Bool
  | .digit => Text.isDigit
  | .blank => Text.isBlank
  | .word => Text.isNameChar

/-- A set of characters. -/
inductive CharSet where
  /-- No character. -/
  | none
  /-- The characters between two, both included. -/
  | range (first last : Char)
  /-- The characters of a class. -/
  | ofClass (name : CharClass)
  /-- The characters in either set. -/
  | either (a b : CharSet)
  /-- All other characters. -/
  | except (a : CharSet)
  deriving DecidableEq, Repr

namespace CharSet

/-- The set holds the character. -/
def has : CharSet → Char → Bool
  | .none, _ => false
  | .range first last, c => first ≤ c && c ≤ last
  | .ofClass name, c => name.has c
  | .either a b, c => a.has c || b.has c
  | .except a, c => !a.has c

/-- The set of one character. -/
def single (c : Char) : CharSet := .range c c

/-- The characters in both sets. -/
def both (a b : CharSet) : CharSet := .except (.either (.except a) (.except b))

/-- The characters in the first set alone. -/
def minus (a b : CharSet) : CharSet := a.both (.except b)

/-- All characters but the line feed. -/
def anyInLine : CharSet := .except (.single '\n')

end CharSet

/-! ## 2. Rules -/

/-- A condition on a place between characters. -/
inductive Anchor where
  /-- The text begins here. -/
  | start
  /-- The text ends here. -/
  | finish
  /-- A word begins or ends here. -/
  | wordEdge
  /-- No word begins or ends here. -/
  | noWordEdge
  /-- A word begins here. -/
  | wordStart
  /-- A word ends here. -/
  | wordEnd
  deriving DecidableEq, Repr

/-- The character is there and belongs to a word. -/
def isInWord (c : Option Char) : Bool :=
  (c.map CharClass.word.has).getD false

/-- The condition holds between two characters. -/
def Anchor.holds (before after : Option Char) : Anchor → Bool
  | .start => before.isNone
  | .finish => after.isNone
  | .wordEdge => isInWord before != isInWord after
  | .noWordEdge => isInWord before == isInWord after
  | .wordStart => !isInWord before && isInWord after
  | .wordEnd => isInWord before && !isInWord after

/-- What a stretch of text may look like. -/
inductive Rule where
  /-- Empty. -/
  | empty
  /-- Empty, at certain places. -/
  | anchor (a : Anchor)
  /-- One character of a set. -/
  | one (set : CharSet)
  /-- One rule after the other. -/
  | seq (a b : Rule)
  /-- Either rule. -/
  | alt (a b : Rule)
  /-- A rule any number of times. -/
  | star (a : Rule)
  deriving DecidableEq, Repr

namespace Rule

/-- One rule after the other, where nothing is written as nothing. -/
def followedBy (a b : Rule) : Rule :=
  if a = .empty then b else if b = .empty then a else .seq a b

/-- A rule at least `least` times and at most `least + more` times. -/
def times (least more : Nat) (a : Rule) : Rule :=
  match least, more with
  | 0, 0 => .empty
  | 0, more + 1 => .alt .empty (a.followedBy (a.times 0 more))
  | least + 1, more => a.followedBy (a.times least more)

/-- A rule at least `least` times. -/
def atLeast (least : Nat) (a : Rule) : Rule :=
  (a.times least 0).followedBy (.star a)

/-! ## 3. Searching -/

/-- The rule matches the empty stretch between two characters. -/
def matchesEmpty (before after : Option Char) : Rule → Bool
  | .empty => true
  | .anchor a => a.holds before after
  | .one _ => false
  | .seq a b => a.matchesEmpty before after && b.matchesEmpty before after
  | .alt a b => a.matchesEmpty before after || b.matchesEmpty before after
  | .star _ => true

/-- What may remain of the rule once the character `c` behind `before` is matched. -/
def remains (before : Option Char) (c : Char) : Rule → List Rule
  | .empty => []
  | .anchor _ => []
  | .one set => if set.has c then [.empty] else []
  | .seq a b =>
    (a.remains before c).map (·.followedBy b) ++
      if a.matchesEmpty before (some c) then b.remains before c else []
  | .alt a b => a.remains before c ++ b.remains before c
  | .star a => (a.remains before c).map (·.followedBy (.star a))

/-- One of the rules matches a stretch that begins here, or the rule matches a stretch further on. -/
def searchFrom (rule : Rule) (before : Option Char) (alive : List Rule) : List Char → Bool
  | [] => alive.any (·.matchesEmpty before none)
  | c :: text =>
    alive.any (·.matchesEmpty before (some c)) ||
      searchFrom rule (some c) (rule :: (alive.flatMap (·.remains before c)).eraseDups) text

/-- The rule matches a stretch of the text. -/
def search (rule : Rule) (text : List Char) : Bool :=
  rule.searchFrom none [rule] text

end Rule

/-- A pattern: its spelling and the rule that it spells. -/
structure Pattern where
  /-- The spelling. -/
  text : String
  /-- The rule. -/
  rule : Rule

/-- The pattern is found in a text. -/
def Pattern.isFoundIn (pattern : Pattern) (text : String) : Bool :=
  pattern.rule.search text.toList

end Stache
