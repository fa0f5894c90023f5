import Stache.Spec.Code
import Stache.Spec.Dialogue
import Stache.Template.Blocks

/-!
# Compilation

A template becomes the code of a spec: it is read, its names are decided, every reference is asked about,
and the tree is written.
-/

namespace Stache

/-- The compilation of a template, as a dialogue about its references. -/
def compilation (hints : Hints) (source : String) : Dialogue String := do
  let program ← Dialogue.ofExcept (Program.parse source)
  let body ← (program.spec hints).ask
  return body.specText

/-- The helpers that every runtime provides. -/
def builtinHelpers : List String :=
  ["blockHelperMissing", "each", "helperMissing", "if", "log", "lookup", "unless", "with"]

/-- A compiler: what it is told about helpers and the source lead to a dialogue that ends with code. The
    number of the pass is for compilers that do not always do the same. -/
abbrev Compiler := (pass : Nat) → Hints → (source : String) → Dialogue String

/-- The compiler of templates: every pass does the same. -/
def templateCompiler : Compiler :=
  fun _ hints source => compilation hints source

/-- The compiler that returns the source as it is and asks nothing. -/
def verbatimCompiler : Compiler :=
  fun _ _ source => .done source

end Stache
