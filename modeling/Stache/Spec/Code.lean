import Stache.Spec.Tree

/-!
# The code of a spec

How a spec tree over codes is written: an object that holds a function for every body and tells what the
functions need. The bodies of sections are numbered from one, each before the bodies inside it and those
before whatever follows.
-/

namespace Stache

/-! ## 1. Values -/

/-- The members of a chain behind the first one, added to what is written already. -/
def chainText (written : String) : List String → String
  | [] => written
  | link :: links =>
    chainText ("((stack1 = " ++ written ++ ") != null ? " ++ link ++ " : stack1)") links

/-- How a chain is written: each member is looked up only on something. -/
def ChainOf.text (chain : ChainOf String) : String :=
  let base := chain.base.text
  match chain.links with
  | [] => base
  | link :: links => chainText ("(" ++ base ++ " != null ? " ++ link ++ " : " ++ base ++ ")") links

/-- The fields of an object. -/
def objectText (fields : List String) : String :=
  "\x7b" ++ String.intercalate "," fields ++ "\x7d"

/-- A field of an object. -/
def fieldText (key value : String) : String :=
  Text.quote key ++ ":" ++ value

/-- A section as a function to call: its number, and how many block parameters it takes. -/
def programText (number params : Nat) : String :=
  "container.program(" ++ toString number ++ ", data, " ++ toString params ++
    ", blockParams, depths)"

/-- The numbers of the sections of a block, and how many block parameters the first one takes. -/
structure SectionNumbers where
  /-- The section for true. -/
  main : Option Nat
  /-- The section for false. -/
  inverse : Option Nat
  /-- The block parameters of the section for true. -/
  params : Nat

/-- A section, or nothing to do. -/
def sectionText (params : Nat) : Option Nat → String
  | some number => programText number params
  | none => "container.noop"

/-- The sections that a block hands to its call. -/
def SectionNumbers.fields (sections : SectionNumbers) : List String :=
  [fieldText "fn" (sectionText sections.params sections.main),
    fieldText "inverse" (sectionText 0 sections.inverse)]

/-- Where a call stands: the line, and the column from zero. -/
def locationText (position : Position) : String :=
  objectText [fieldText "start" (objectText [fieldText "line" (toString position.line),
    fieldText "column" (toString (position.column - 1))])]

/-- The options that every call receives. -/
def optionsText (name : String) (position : Position) (hash : String)
    (sections : Option SectionNumbers) : String :=
  objectText ([fieldText "name" (Text.quote name), fieldText "hash" hash] ++
    (sections.map (·.fields)).getD [] ++
    [fieldText "data" "data", fieldText "loc" (locationText position)])

/-- A call of a function of the generated code or of the runtime. -/
def applyText (function : String) (arguments : List String) : String :=
  function ++ "(" ++ String.intercalate ", " arguments ++ ")"

mutual

/-- How a value is written. -/
def ValueOf.text : ValueOf String → String
  | .chain chain => chain.text
  | .constant text => text
  | .literal code => code
  | .call call => InvocationOf.text none call

/-- How positional arguments are written. -/
def paramTexts : List (ValueOf String) → List String
  | [] => []
  | value :: values => value.text :: paramTexts values

/-- How named arguments are written. -/
def hashTexts : List (String × ValueOf String) → List String
  | [] => []
  | (key, value) :: hash => fieldText key value.text :: hashTexts hash

/-- How a call is written, with the sections if it is the call of a block. -/
def InvocationOf.text (sections : Option SectionNumbers) :
    InvocationOf String (ValueOf String) → String
  | ⟨name, position, .helper helper ⟨params, hash⟩⟩ =>
    applyText "invokeHelper" [helper, "alias1",
      "[" ++ String.intercalate "," (paramTexts params) ++ "]",
      optionsText name position (objectText (hashTexts hash)) sections]
  | ⟨name, position, .ambiguous member helper⟩ =>
    applyText (if sections.isSome then "invokeBlock" else "invokeAmbiguous")
      [helper, ChainOf.text ⟨.context, [member]⟩, "alias1",
        optionsText name position (objectText []) sections]
  | ⟨name, position, .applied value ⟨params, hash⟩⟩ =>
    applyText "invokeHelper" [value.text, "alias1",
      "[" ++ String.intercalate "," (paramTexts params) ++ "]",
      optionsText name position (objectText (hashTexts hash)) sections]
  | ⟨name, position, .plain value lookedUp⟩ =>
    if sections.isSome then
      applyText "container.hooks.blockHelperMissing.call" ["alias1", value.text,
        optionsText name position (objectText []) sections]
    else if lookedUp then applyText "container.lambda" [value.text, "depth0"]
    else value.text
  | ⟨_, _, .refused⟩ => "undefined"

end

/-! ## 2. Lines and functions -/

/-- What is written once some bodies have been numbered: the own text of the part in question, and the
    functions of the bodies inside it, in the order of their numbers. -/
structure Numbered (α : Type) where
  /-- The own text. -/
  own : α
  /-- The functions of the bodies inside. -/
  functions : List String

/-- The statement that appends a value. -/
def appendText (value : String) : String :=
  "buffer += " ++ value ++ ";"

/-- The statement that appends a value unless it is nothing. -/
def appendUnescaped (value : String) : String :=
  appendText ("((stack1 = " ++ value ++ ") != null ? stack1 : \"\")")

/-- The head of every function. -/
def signature : String :=
  "function(container,depth0,helpers,partials,data,blockParams,depths)"

/-- What every function begins with. -/
def prologue : String :=
  "  var stack1, buffer = \"\", alias1 = depth0 != null ? depth0 : (container.nullContext || \x7b\x7d), " ++
  "lookupProperty = container.lookupProperty || function(parent, propertyName) \x7b " ++
  "if (Object.prototype.hasOwnProperty.call(parent, propertyName)) \x7b return parent[propertyName]; \x7d " ++
  "return undefined; \x7d;\n" ++
  "  function invokeHelper(helper, context, params, options) \x7b " ++
  "if (helper == null) \x7b helper = container.hooks.helperMissing; \x7d " ++
  "return typeof helper === \"function\" ? helper.apply(context, params.concat([options])) : helper; \x7d\n" ++
  "  function invokeAmbiguous(helper, value, context, options) \x7b " ++
  "if (helper != null) \x7b return typeof helper === \"function\" ? helper.call(context, options) : helper; \x7d " ++
  "return typeof value === \"function\" ? value.call(context, options) : value; \x7d\n" ++
  "  function invokeBlock(helper, value, context, options) \x7b " ++
  "if (helper != null) \x7b return typeof helper === \"function\" ? helper.call(context, options) : helper; \x7d " ++
  "return container.hooks.blockHelperMissing.call(context, value, options); \x7d"

/-- The function whose statements are the given lines. -/
def functionText (lines : List String) : String :=
  signature ++ " \x7b\n" ++ prologue ++ "\n  " ++ String.intercalate "\n  " lines ++
    "\n  return buffer;\n\x7d"

/-- The target and the name that a partial is rendered with. -/
def PartialNameOf.texts : PartialNameOf String → String × String
  | .known name lookup => (lookup, Text.quote name)
  | .computed call => ("undefined", InvocationOf.text none call)

/-- How a partial is rendered. -/
def partialText (name : PartialNameOf String) (context : Option (ValueOf String))
    (hash : List (String × ValueOf String)) (fallback : Option Nat) : String :=
  let (target, shown) := name.texts
  let context := (context.map ValueOf.text).getD "depth0"
  applyText "container.invokePartial" [target, context,
    objectText ([fieldText "name" shown, fieldText "hash" (objectText (hashTexts hash)),
      fieldText "data" "data", fieldText "helpers" "helpers", fieldText "partials" "partials",
      fieldText "decorators" "container.decorators"] ++
      (fallback.map fun number => fieldText "fn" (programText number 0)).toList)]

/-- The number of a section that is there. -/
def numberOf? {ℓ : Type} (number : Nat) (body : Option (BodyOf ℓ)) : Option Nat :=
  body.map fun _ => number

mutual

/-- How a line is written when the next body gets the number `next`. -/
def LineOf.written (next : Nat) : LineOf String → Numbered String
  | .chunk code => ⟨appendText code, []⟩
  | .escaped call =>
    ⟨appendText (applyText "container.escapeExpression" [InvocationOf.text none call]), []⟩
  | .unescaped call => ⟨appendUnescaped (InvocationOf.text none call), []⟩
  | .block main inverse call =>
    let first := sectionFunctions next main
    let behind := next + first.length
    let second := sectionFunctions behind inverse
    ⟨appendUnescaped (InvocationOf.text (some ⟨numberOf? next main, numberOf? behind inverse,
      (main.map fun body => body.params.length).getD 0⟩) call), first ++ second⟩
  | .partialTemplate name context hash fallback =>
    ⟨appendUnescaped (partialText name context hash (numberOf? next fallback)),
      sectionFunctions next fallback⟩

/-- How lines are written. -/
def writtenLines (next : Nat) : List (LineOf String) → Numbered (List String)
  | [] => ⟨[], []⟩
  | line :: lines =>
    let first := line.written next
    let others := writtenLines (next + first.functions.length) lines
    ⟨first.own :: others.own, first.functions ++ others.functions⟩

/-- The function of a section, and behind it those of the bodies inside. -/
def sectionFunctions (next : Nat) : Option (BodyOf (LineOf String)) → List String
  | none => []
  | some ⟨lines, _⟩ =>
    let inner := writtenLines (next + 1) lines
    functionText inner.own :: inner.functions

end

/-! ## 3. What the functions need -/

/-- What a spec has to announce. -/
structure Needs where
  /-- A partial is rendered. -/
  partials : Bool
  /-- An outer context is looked at. -/
  depths : Bool
  /-- A section has block parameters. -/
  blockParams : Bool
  deriving DecidableEq, Repr

namespace Needs

/-- Nothing is needed. -/
def nothing : Needs := ⟨false, false, false⟩

/-- What either needs. -/
def or (a b : Needs) : Needs :=
  ⟨a.partials || b.partials, a.depths || b.depths, a.blockParams || b.blockParams⟩

end Needs

section Needs

variable {ρ : Type}

/-- The base is an outer context. -/
def Base.isAncestor : Base → Bool
  | .ancestor _ => true
  | _ => false

mutual

/-- What a value needs. -/
def ValueOf.needs : ValueOf ρ → Needs
  | .chain chain => ⟨false, chain.base.isAncestor, false⟩
  | .constant _ => .nothing
  | .literal _ => .nothing
  | .call call => InvocationOf.needs call

/-- What values need. -/
def paramsNeeds : List (ValueOf ρ) → Needs
  | [] => .nothing
  | value :: values => value.needs.or (paramsNeeds values)

/-- What named values need. -/
def hashNeeds : List (String × ValueOf ρ) → Needs
  | [] => .nothing
  | (_, value) :: hash => value.needs.or (hashNeeds hash)

/-- What a call needs. -/
def InvocationOf.needs : InvocationOf ρ (ValueOf ρ) → Needs
  | ⟨_, _, .helper _ ⟨params, hash⟩⟩ => (paramsNeeds params).or (hashNeeds hash)
  | ⟨_, _, .ambiguous _ _⟩ => .nothing
  | ⟨_, _, .applied value ⟨params, hash⟩⟩ =>
    (value.needs).or ((paramsNeeds params).or (hashNeeds hash))
  | ⟨_, _, .plain value _⟩ => value.needs
  | ⟨_, _, .refused⟩ => .nothing

end

/-- What the name of a partial needs. -/
def PartialNameOf.needs : PartialNameOf ρ → Needs
  | .known _ _ => .nothing
  | .computed call => InvocationOf.needs call

/-- What the context of a partial needs. -/
def contextNeeds : Option (ValueOf ρ) → Needs
  | none => .nothing
  | some value => value.needs

mutual

/-- What a line needs. -/
def LineOf.needs : LineOf ρ → Needs
  | .chunk _ => .nothing
  | .escaped call => InvocationOf.needs call
  | .unescaped call => InvocationOf.needs call
  | .block main inverse call =>
    (sectionNeeds main).or ((sectionNeeds inverse).or (InvocationOf.needs call))
  | .partialTemplate name context hash fallback =>
    (Needs.mk true false false).or
      (name.needs.or ((contextNeeds context).or ((hashNeeds hash).or (sectionNeeds fallback))))

/-- What lines need. -/
def linesNeeds : List (LineOf ρ) → Needs
  | [] => .nothing
  | line :: lines => line.needs.or (linesNeeds lines)

/-- What a section needs. -/
def sectionNeeds : Option (BodyOf (LineOf ρ)) → Needs
  | none => .nothing
  | some ⟨lines, params⟩ => (Needs.mk false false !params.isEmpty).or (linesNeeds lines)

end

end Needs

/-! ## 4. The whole spec -/

/-- The revision of the format of specs. A runtime executes only specs of its own revision. -/
def specRevision : Nat := 8

/-- The versions of the runtime that a spec can be executed by. -/
def runtimeVersions : String := ">= 4.3.0"

/-- Functions as fields, numbered from `next`. -/
def numberedFields (next : Nat) : List String → List String
  | [] => []
  | function :: functions =>
    fieldText (toString next) function :: numberedFields (next + 1) functions

/-- A field that is there only when it is needed. -/
def flagField (key : String) (needed : Bool) : List String :=
  if needed then [fieldText key "true"] else []

/-- The code of a spec. -/
def BodyOf.specText (body : BodyIn String) : String :=
  let written := writtenLines 1 body.lines
  let needs := linesNeeds body.lines
  objectText (numberedFields 1 written.functions ++
    [fieldText "compiler" ("[" ++ toString specRevision ++ "," ++ Text.quote runtimeVersions ++ "]"),
      fieldText "main" (functionText written.own)] ++
    flagField "usePartial" needs.partials ++ [fieldText "useData" "true"] ++
    flagField "useDepths" needs.depths ++ flagField "useBlockParams" needs.blockParams)

end Stache
