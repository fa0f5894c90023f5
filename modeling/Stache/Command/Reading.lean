import Stache.Command.Grammar
import Stache.Options.Expansion

/-!
# Reading a command line

The arguments are read from left to right, command by command. Values that have been read are *held* until
it is clear that no more of them follow; only then are they checked and count as given. So of two faults
the one that is seen first decides, not the one that stands first:

* an unknown argument is seen before the values that are held;
* what a command below lacks is seen before what the commands above it lack.
-/

namespace Stache

variable {ν κ : Type}

/-! ## 1. What has been read -/

/-- Values by what they are for, in order. -/
abbrev Given (κ : Type) := List (κ × List String)

namespace Given

variable [DecidableEq κ]

/-- Something was given for a key. -/
def has (given : Given κ) (key : κ) : Bool :=
  given.any fun (k, _) => k = key

/-- The values for a key, in order. -/
def values (given : Given κ) (key : κ) : List String :=
  given.flatMap fun (k, values) => if k = key then values else []

/-- The first value for a key. -/
def value? (given : Given κ) (key : κ) : Option String :=
  (given.values key).head?

end Given

/-- What a command has read. -/
structure Intake (κ : Type) where
  /-- What has been checked. -/
  given : Given κ := []
  /-- Values that are held, and their place. An option that waits for its value holds none. -/
  held : Option (Slot κ × List String) := none

namespace Intake

variable [DecidableEq κ]

/-- Checks values for a place. -/
def accept (intake : Intake κ) (slot : Slot κ) (values : List String) : Except UsageFault (Intake κ) :=
  if values = [] then .error .badValue
  else if !slot.repeatable && intake.given.has slot.key then .error .conflict
  else if slot.nonEmpty && values.contains "" then .error .badValue
  else .ok { intake with given := intake.given ++ [(slot.key, values)] }

/-- Checks the values that are held. -/
def settle (intake : Intake κ) : Except UsageFault (Intake κ) :=
  match intake.held with
  | none => .ok intake
  | some (slot, values) => accept { intake with held := none } slot values

/-- Reads a switch. -/
def turn (intake : Intake κ) (switch : Switch κ) : Except UsageFault (Intake κ) := do
  let intake ← intake.settle
  match switch with
  | .help => .error .helpWanted
  | .version => .error .versionWanted
  | .flag key =>
    if intake.given.has key then .error .conflict
    else .ok { intake with given := intake.given ++ [(key, [])] }

/-- Reads the name of an option, perhaps with its value. -/
def option (intake : Intake κ) (meaning : OptionMeaning κ) (value : Option String) :
    Except UsageFault (Intake κ) :=
  match meaning, value with
  | .switch switch, none => intake.turn switch
  | .switch _, some _ => .error .tooManyValues
  | .slot slot, none => do return { ← intake.settle with held := some (slot, []) }
  | .slot slot, some value => do accept (← intake.settle) slot [value]

/-- Reads letters. -/
def letters (meanings : List (Char × Switch κ)) (intake : Intake κ) :
    List Char → Except UsageFault (Intake κ)
  | [] => .ok intake
  | letter :: rest =>
    match meanings.lookup letter with
    | none => .error .unknownArgument
    | some switch => do letters meanings (← intake.turn switch) rest

/-- Reads a word for a place; none if the place is taken. -/
def word? (intake : Intake κ) (slot : Slot κ) (word : String) :
    Option (Except UsageFault (Intake κ)) :=
  let apart := do return { ← intake.settle with held := some (slot, [word]) }
  match intake.held with
  | some (held, values) =>
    if held.key = slot.key then
      if slot.repeatable then some (.ok { intake with held := some (slot, values ++ [word]) })
      else none
    else if !slot.repeatable && intake.given.has slot.key then none
    else some apart
  | none => if !slot.repeatable && intake.given.has slot.key then none else some apart

/-- The place that waits for its value. -/
def waiting? (intake : Intake κ) : Option (Slot κ) :=
  match intake.held with
  | some (slot, []) => some slot
  | _ => none

/-- An option takes whatever comes next. -/
def isGreedy (intake : Intake κ) : Bool :=
  (intake.waiting?.map Slot.greedy).getD false

end Intake

/-! ## 2. Command by command -/

namespace Grammar

variable [DecidableEq κ]

/-- Values from the environment for what was not given. -/
def addVariables (environment : Environment) (intake : Intake κ) :
    List (String × Slot κ) → Except UsageFault (Intake κ)
  | [] => .ok intake
  | (name, slot) :: rest =>
    match environment.lookup name with
    | none => addVariables environment intake rest
    | some value =>
      if intake.given.has slot.key then addVariables environment intake rest
      else do addVariables environment (← intake.accept slot [value]) rest

/-- What is given to a command in the end: nothing may exclude each other, nothing may be missing, and a
    command that needs a command below it must have one. -/
def finish (grammar : Grammar ν κ) (environment : Environment) (command : ν) (hasBelow : Bool)
    (intake : Intake κ) : Except UsageFault (Given κ) := do
  let given := (← addVariables environment (← intake.settle) (grammar.fallbacks command)).given
  if !hasBelow && grammar.isBranch command then
    .error (if given = [] then .nothingGiven else .commandMissing)
  else if (grammar.exclusions command).any fun (a, b) => given.has a && given.has b then
    .error .conflict
  else if (grammar.required command).any fun key => !given.has key then .error .argumentMissing
  else .ok given

/-- Reads a word that is not the name of a command. -/
def readWord (grammar : Grammar ν κ) (command : ν) (onlyWords : Bool) (intake : Intake κ)
    (word : String) : Except UsageFault (Intake κ) :=
  ((grammar.words command).bind fun slot => intake.word? slot word).getD
    (.error (grammar.extraWord command onlyWords word))

/-- Reads the words behind the mark `--`. -/
def readWords (grammar : Grammar ν κ) (command : ν) (intake : Intake κ) (words : List String) :
    Except UsageFault (Intake κ) :=
  words.foldlM (grammar.readWord command true) intake

/-- Reads the arguments of a command: what is given to it and to each command below it. -/
def readFrom (grammar : Grammar ν κ) (environment : Environment) (command : ν) (intake : Intake κ) :
    List String → Except UsageFault (List (ν × Given κ))
  | [] => do return [(command, ← grammar.finish environment command false intake)]
  | text :: rest =>
    if intake.isGreedy then
      grammar.readFrom environment command { intake with held := intake.waiting?.map (·, [text]) } rest
    else
      match Argument.ofText text with
      | .onlyWords => do
        let intake ← grammar.readWords command intake rest
        return [(command, ← grammar.finish environment command false intake)]
      | .long name value =>
        match (grammar.options command).lookup name with
        | none => .error .unknownArgument
        | some meaning => do
          grammar.readFrom environment command (← intake.option meaning value) rest
      | .letters letters => do
        grammar.readFrom environment command
          (← intake.letters (grammar.letters command) letters) rest
      | .word word =>
        match intake.waiting? with
        | some slot =>
          grammar.readFrom environment command { intake with held := some (slot, [word]) } rest
        | none =>
          match (grammar.commands command).lookup word with
          | some below => do
            let belowGiven ← grammar.readFrom environment below {} rest
            return (command, ← grammar.finish environment command true intake) :: belowGiven
          | none =>
            if grammar.namesCommand command word then .error (grammar.helpOn command rest)
            else do
              grammar.readFrom environment command
                (← grammar.readWord command false intake word) rest

/-- Reads a command line that starts at a command. -/
def read (grammar : Grammar ν κ) (environment : Environment) (command : ν)
    (arguments : List String) : Except UsageFault (List (ν × Given κ)) :=
  grammar.readFrom environment command {} arguments

end Grammar

end Stache
