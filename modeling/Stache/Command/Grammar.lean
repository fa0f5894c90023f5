/-!
# Grammars of command lines

A command line is a row of arguments. A command accepts *switches*, *options* with a value, and *words*; a
word may also name a command below it, which takes over the arguments that follow.

* `Grammar` lists what each command accepts;
* `UsageFault` lists why a command line is not run;
* `Argument.ofText` tells what an argument looks like.

Commands and keys are types of their own, `ν` and `κ`, so that nothing can be asked for that the grammar
does not have.
-/

namespace Stache

/-! ## 1. Faults -/

/-- Why a command line is not run. -/
inductive UsageFault where
  /-- The help was asked for. -/
  | helpWanted
  /-- The version was asked for. -/
  | versionWanted
  /-- Nothing was given to a command that needs a command below it. -/
  | nothingGiven
  /-- The command below is missing. -/
  | commandMissing
  /-- Something required is missing. -/
  | argumentMissing
  /-- An argument that is not accepted. -/
  | unknownArgument
  /-- A word that names no command. -/
  | unknownCommand
  /-- A value that is missing or empty. -/
  | badValue
  /-- A value for a switch. -/
  | tooManyValues
  /-- Arguments that exclude each other, or one that is given twice. -/
  | conflict
  deriving DecidableEq, Repr

/-! ## 2. What is accepted -/

/-- A place for values. -/
structure Slot (κ : Type) where
  /-- What the values are for. -/
  key : κ
  /-- It may be given more than once. -/
  repeatable : Bool := false
  /-- A value must not be empty. -/
  nonEmpty : Bool := false
  /-- Whatever comes next is the value, even if it looks like an option. -/
  greedy : Bool := false

/-- An argument that stands alone. -/
inductive Switch (κ : Type) where
  /-- Asks for the help. -/
  | help
  /-- Asks for the version. -/
  | version
  /-- Turns something on. -/
  | flag (key : κ)

/-- What the name of an option stands for. -/
inductive OptionMeaning (κ : Type) where
  /-- A switch. -/
  | switch (switch : Switch κ)
  /-- A place for the value that follows. -/
  | slot (slot : Slot κ)

/-- What the commands accept. -/
structure Grammar (ν κ : Type) where
  /-- The commands below a command, by name. -/
  commands : ν → List (String × ν)
  /-- The options, by their long names. -/
  options : ν → List (String × OptionMeaning κ)
  /-- The switches, by their letters. -/
  letters : ν → List (Char × Switch κ)
  /-- The place for words. -/
  words : ν → Option (Slot κ)
  /-- What has to be given. -/
  required : ν → List κ
  /-- What excludes each other. -/
  exclusions : ν → List (κ × κ)
  /-- The variables of the environment that stand in for options. -/
  fallbacks : ν → List (String × Slot κ)

namespace Grammar

variable {ν κ : Type}

/-- The name of the command that tells about commands. It is there wherever there are commands. -/
def helpCommand : String := "help"

/-- The command has commands below it. -/
def isBranch (grammar : Grammar ν κ) (command : ν) : Bool :=
  !(grammar.commands command).isEmpty

/-- The word names something below the command. -/
def namesCommand (grammar : Grammar ν κ) (command : ν) (word : String) : Bool :=
  grammar.isBranch command &&
    (word == helpCommand || ((grammar.commands command).lookup word).isSome)

/-- What comes of asking for help on the command with the given name below a command, then the one below
    that, and so on. -/
def helpOn (grammar : Grammar ν κ) (command : ν) : List String → UsageFault
  | [] => .helpWanted
  | name :: names =>
    match (grammar.commands command).lookup name with
    | some below => grammar.helpOn below names
    | none =>
      if names = [] ∧ grammar.namesCommand command name then .helpWanted else .unknownCommand

/-- The fault of a word that a command has no place for. Where only words may follow, the name of a
    command is as unknown as any word. -/
def extraWord (grammar : Grammar ν κ) (command : ν) (onlyWords : Bool) (word : String) : UsageFault :=
  if !grammar.isBranch command || (onlyWords && grammar.namesCommand command word) then
    .unknownArgument
  else .unknownCommand

end Grammar

/-! ## 3. What an argument looks like -/

/-- An argument by its look. -/
inductive Argument where
  /-- The mark `--`, behind which only words follow. -/
  | onlyWords
  /-- A long name, perhaps with a value behind `=`. -/
  | long (name : String) (value : Option String)
  /-- Letters behind one dash. -/
  | letters (letters : List Char)
  /-- A word; a single dash is one. -/
  | word (text : String)
  deriving DecidableEq, Repr

/-- What an argument looks like. -/
def Argument.ofText (text : String) : Argument :=
  match text.toList with
  | ['-', '-'] => .onlyWords
  | '-' :: '-' :: rest =>
    match rest.dropWhile (· ≠ '=') with
    | [] => .long (String.ofList rest) none
    | _ :: value => .long (String.ofList (rest.takeWhile (· ≠ '='))) (some (String.ofList value))
  | '-' :: first :: rest => .letters (first :: rest)
  | _ => .word text

end Stache
