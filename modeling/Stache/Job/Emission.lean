import Stache.Config
import Stache.Text.Quoted

/-!
# Emission

The module that a settled template becomes. The code is wrapped into a function that is called with an
identifier of the template, made from its path.
-/

namespace Stache

/-- The module of an empty template. -/
def blankModule : String :=
  "module.exports = function()\x7breturn \"\";\x7d;"

/-- The text without the separators at its end. -/
def trimSeparators (text : List Char) : List Char :=
  (text.reverse.dropWhile (· == '/')).reverse

/-- The beginnings of paths that identifiers do not show: the module directories below the root. -/
def Config.hiddenPrefixes (config : Config) : List (List Char) :=
  match config.root with
  | none => []
  | some root =>
    let root := trimSeparators (Path.storageForm ⟨root⟩).toList
    config.moduleDirectories.map fun directory => root ++ '/' :: directory.toList

/-- The identifier of a template: its path without hidden beginnings, with `/tpl/` written as `/`, and
    without a separator in front. -/
def Config.identifier (config : Config) (path : Path) : String :=
  let text := path.storageForm.toList
  let stripped := Text.eraseAll config.hiddenPrefixes text
  let collapsed := Text.replaceAll "/tpl/".toList ['/'] stripped
  String.ofList (match collapsed with
    | '/' :: rest => rest
    | text => text)

/-- The module of a template with the given code. -/
def Config.module (config : Config) (code : String) (path : Path) : String :=
  if code = "" then blankModule
  else
    "var Handlebars = require(" ++ Text.quote config.runtimeRequest ++ ");\n" ++
    "function __default(obj) \x7b return obj && (obj.__esModule ? obj[\"default\"] : obj); \x7d\n" ++
    "module.exports = (function($__hbsFileName)\x7b return (Handlebars[\"default\"] || Handlebars)" ++
    ".template(" ++ code ++ "); \x7d)(" ++ Text.quote (config.identifier path) ++ ")"

end Stache
