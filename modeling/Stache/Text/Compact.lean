import Stache.Text.Blank

/-!
# Compaction of generated code

Three passes, each over the result of the one before:

* `dropBreaks` removes the escapes `\r` and `\n` (a backslash always takes the next character with
  it, so the second half of `\\` never starts an escape);
* `squeeze` writes a run of two or more blanks as one space; a single blank stays as it is;
* `closeGaps` removes the blanks between a `>` and a `<`.
-/

namespace Stache.Text

/-! ## 1. Escaped line breaks -/

/-- The code without the escapes `\r` and `\n`. -/
def dropBreaks : List Char → List Char
  | [] => []
  | '\\' :: 'r' :: code => dropBreaks code
  | '\\' :: 'n' :: code => dropBreaks code
  | '\\' :: c :: code => '\\' :: c :: dropBreaks code
  | c :: code => c :: dropBreaks code

/-! ## 2. Runs of blanks -/

/-- How a run of blanks is written. -/
def squeezedRun : List Char → List Char
  | [] => []
  | [c] => [c]
  | _ => [' ']

/-- The code with runs of blanks squeezed, after a run that is still open. -/
def squeezeAfter (run : List Char) : List Char → List Char
  | [] => squeezedRun run
  | c :: code =>
    if isBlank c then squeezeAfter (c :: run) code
    else squeezedRun run ++ c :: squeezeAfter [] code

/-- The code with every run of two or more blanks written as one space. -/
def squeeze (code : List Char) : List Char :=
  squeezeAfter [] code

/-! ## 3. Blanks between angle brackets -/

/-- The code without blanks between `>` and `<`. While `isOpen` holds, `held` are the blanks seen since
    the last `>`. -/
def closeGapsAfter (isOpen : Bool) (held : List Char) : List Char → List Char
  | [] => held
  | c :: code =>
    if isOpen && isBlank c then closeGapsAfter true (held ++ [c]) code
    else (if c = '<' then [] else held) ++ c :: closeGapsAfter (c == '>') [] code

/-- The code without blanks between `>` and `<`. -/
def closeGaps (code : List Char) : List Char :=
  closeGapsAfter false [] code

/-! ## 4. All three -/

/-- Compacted code. -/
def compact (code : String) : String :=
  String.ofList (closeGaps (squeeze (dropBreaks code.toList)))

end Stache.Text
