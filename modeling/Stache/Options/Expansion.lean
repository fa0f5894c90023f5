import Stache.Options.Fault
import Stache.Text.Alphanumeric
import Stache.Text.Cut

/-!
# Expansion

Directories and requests may refer to the environment: `$NAME`, `${NAME}`, `${NAME:-default}` with a
default for a variable that is not set, and `~` for the home directory. A value that was put in is not
expanded again. `$$` stands for one `$`.
-/

namespace Stache

/-- The variables of the environment. -/
abbrev Environment := List (String × String)

/-- The value of a variable. -/
def Environment.get (environment : Environment) (name : String) : Except OptionFault String :=
  match environment.lookup name with
  | some value => .ok value
  | none => .error (.unsetVariable name)

/-- A part of a text that refers to the environment. -/
inductive ExpansionPart where
  /-- A character as it is. -/
  | plain (c : Char)
  /-- A variable. -/
  | variable (name : List Char)
  /-- A variable, and what stands for it if it is not set. -/
  | variableOr (name default : List Char)

namespace ExpansionPart

/-- The variable in braces, from what stands between them. A mark for a default right at the beginning
    belongs to the name. -/
def ofBraces (inside : List Char) : ExpansionPart :=
  match Text.cut? ":-".toList inside with
  | some (c :: name, default) => .variableOr (c :: name) default
  | _ => .variable inside

/-- Behind a closing brace less is left. -/
theorem length_lt_of_cutBrace {rest inside behind : List Char}
    (h : Text.cut? ['\x7d'] rest = some (inside, behind)) : behind.length < rest.length := by
  rw [Text.append_of_cut? h]
  simp only [List.length_append, List.length_cons, List.length_nil]
  omega

/-- Behind a name no more is left. -/
theorem length_dropWhile_le (rest : List Char) :
    (rest.dropWhile Text.isNameChar).length ≤ rest.length :=
  (List.dropWhile_suffix _).length_le

/-- The parts of a text. -/
def read (text : List Char) : List ExpansionPart :=
  match text with
  | [] => []
  | '$' :: '$' :: rest => .plain '$' :: read rest
  | '$' :: '\x7b' :: rest =>
    match h : Text.cut? ['\x7d'] rest with
    | some (inside, behind) =>
      have := length_lt_of_cutBrace h
      ofBraces inside :: read behind
    | none => .plain '$' :: .plain '\x7b' :: read rest
  | '$' :: c :: rest =>
    if Text.isNameChar c then
      have := length_dropWhile_le rest
      .variable (c :: rest.takeWhile Text.isNameChar) :: read (rest.dropWhile Text.isNameChar)
    else .plain '$' :: read (c :: rest)
  | c :: rest => .plain c :: read rest
termination_by text.length

/-- What a part becomes. -/
def expand (environment : Environment) : ExpansionPart → Except OptionFault (List Char)
  | .plain c => .ok [c]
  | .variable name => do return (← environment.get (String.ofList name)).toList
  | .variableOr name default =>
    .ok (((environment.lookup (String.ofList name)).map String.toList).getD default)

end ExpansionPart

/-- The home directory in place of a `~` that stands alone or before a separator. -/
def expandHome (environment : Environment) (text : List Char) : List Char :=
  match text, environment.lookup "HOME" with
  | ['~'], some home => home.toList
  | '~' :: '/' :: rest, some home => home.toList ++ '/' :: rest
  | text, _ => text

/-- The expanded text. A `~` that comes from a variable stays. -/
def expand (environment : Environment) (text : String) : Except OptionFault String := do
  let parts ← (ExpansionPart.read text.toList).mapM (·.expand environment)
  let expanded := parts.flatten
  return String.ofList
    (if text.toList.head? = some '~' then expandHome environment expanded else expanded)

end Stache
