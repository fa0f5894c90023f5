import Stache.Position
import Stache.Template.Token.Basic

/-!
# Faults of a template

Why a template is rejected, one constructor per cause, and where. The wording is in `Fault.message`.
-/

namespace Stache

/-- Why a template is rejected. -/
inductive Fault where
  /-- A tag without its closing braces. -/
  | unclosedMustache
  /-- A string without its closing quote. -/
  | unterminatedString
  /-- A bracketed segment without its closing bracket. -/
  | unterminatedSegment
  /-- A character that begins no token. -/
  | unexpectedCharacter (c : Char)
  /-- A closing tag outside of any block. -/
  | strayClose (name : String)
  /-- An else outside of any block. -/
  | strayElse
  /-- A block that the text ends in. -/
  | unclosedBlock (name : String)
  /-- A closing tag with another name than the tag it closes. -/
  | mismatchedClose (opened closed : String)
  /-- A second plain else in one block. -/
  | duplicateElse (name : String)
  /-- An else in a partial block. -/
  | elseInPartial
  /-- Block parameters that are not `as |name … name|` at the end of the tag. -/
  | malformedBlockParams
  /-- A partial tag without a name. -/
  | missingPartialName
  /-- A partial with two or more context arguments. -/
  | extraPartialContext
  /-- Tokens left over after a call. -/
  | trailingTokens
  /-- A closing tag that is more than one path or string. -/
  | closeNotOnePath
  /-- An empty call. -/
  | missingExpression
  /-- A positional argument after a hash argument. -/
  | positionalAfterHash
  /-- A subexpression without its closing parenthesis. -/
  | unclosedSubexpression
  /-- A token that begins no expression. -/
  | unexpectedToken (token : Token)
  /-- The tokens end where an expression is needed. -/
  | unexpectedEnd
  /-- A lookup in which a segment is missing. -/
  | missingSegment
  /-- A call of a helper outside the known ones, when only those are allowed. -/
  | unknownHelper (name : String)
  /-- A fault reported with its own wording. -/
  | reported (message : String)
  deriving DecidableEq, Repr

/-- The wording of a fault. -/
def Fault.message : Fault → String
  | .unclosedMustache => "Unclosed mustache, expected '\x7d\x7d'"
  | .unterminatedString => "Unterminated string literal"
  | .unterminatedSegment => "Unterminated segment literal"
  | .unexpectedCharacter c => "Unexpected character '" ++ String.singleton c ++ "' in expression"
  | .strayClose name => "Unexpected closing tag '" ++ name ++ "'"
  | .strayElse => "Unexpected \x7b\x7belse\x7d\x7d outside of a block"
  | .unclosedBlock name => "Unclosed block '" ++ name ++ "'"
  | .mismatchedClose opened closed => opened ++ " doesn't match " ++ closed
  | .duplicateElse name => "Duplicate \x7b\x7belse\x7d\x7d in block '" ++ name ++ "'"
  | .elseInPartial => "Partial blocks cannot have an \x7b\x7belse\x7d\x7d section"
  | .malformedBlockParams => "Malformed block parameters"
  | .missingPartialName => "Expected a partial name"
  | .extraPartialContext => "Partials accept at most one context argument"
  | .trailingTokens => "Unexpected token after expression"
  | .closeNotOnePath => "Expected a single path in closing tag"
  | .missingExpression => "Expected an expression"
  | .positionalAfterHash => "Positional parameters must come before hash arguments"
  | .unclosedSubexpression => "Unclosed subexpression, expected ')'"
  | .unexpectedToken token => "Unexpected token " ++ token.label
  | .unexpectedEnd => "Unexpected end of expression"
  | .missingSegment => "Expected a path segment"
  | .unknownHelper name => "You specified knownHelpersOnly, but used the unknown helper " ++ name
  | .reported message => message

/-- A rejected template: the cause, and the tag it was found in. -/
structure SyntaxError where
  /-- The cause. -/
  fault : Fault
  /-- Where the tag at fault begins. -/
  position : Position
  deriving DecidableEq, Repr

namespace SyntaxError

/-- The wording of the cause. -/
def message (e : SyntaxError) : String :=
  e.fault.message

/-- The wording with the position. -/
def display (e : SyntaxError) : String :=
  e.message ++ " (line " ++ toString e.position.line ++ ", column " ++
    toString e.position.column ++ ")"

end SyntaxError

end Stache
