import Stache.Proofs.Spec.Dialogue
import Stache.Proofs.Template.Words
import Stache.Spec.Compilation

/-!
# The outline of a template

The references of a spec tree, read off the tree part by part, up to the first helper that must not be
called.

* `BodyOf.asks_ask` -- the dialogue of a spec tree follows the outline of the tree;
* `compilationOutline`, `asks_compilation` -- so does the compilation of a template: what it asks about,
  and whether it is rejected and why, is settled by the hints and the source alone;
* `outline_namesPartial`, `outline_callsWith`, `outline_everyKind`, `outline_content` -- the outlines of four
  small templates.
-/

namespace Stache

/-! ## 1. Values and calls -/

mutual

/-- The outline of a value. -/
def ValueOf.outline : ValueOf Reference → Outline
  | .chain chain => ⟨chain.links, none⟩
  | .constant _ => .nothing
  | .literal reference => .one reference
  | .call call => InvocationOf.outline call

/-- The outline of positional arguments. -/
def paramsOutline : List (ValueOf Reference) → Outline
  | [] => .nothing
  | value :: values => value.outline ++ paramsOutline values

/-- The outline of named arguments. -/
def hashOutline : List (String × ValueOf Reference) → Outline
  | [] => .nothing
  | (_, value) :: hash => value.outline ++ hashOutline hash

/-- The outline of a call. -/
def InvocationOf.outline : InvocationOf Reference (ValueOf Reference) → Outline
  | ⟨_, _, .helper helper ⟨params, hash⟩⟩ =>
    .one helper ++ (paramsOutline params ++ hashOutline hash)
  | ⟨_, _, .ambiguous member helper⟩ => .one member ++ .one helper
  | ⟨_, _, .applied value ⟨params, hash⟩⟩ =>
    value.outline ++ (paramsOutline params ++ hashOutline hash)
  | ⟨_, _, .plain value _⟩ => value.outline
  | ⟨name, position, .refused⟩ => ⟨[], some ⟨.unknownHelper name, position⟩⟩

end

open Dialogue (Asks)

theorem asks_askAll : ∀ references : List Reference, Asks (askAll references) ⟨references, none⟩
  | [] => .ofPure _
  | reference :: references =>
    (Asks.ofCode reference).bind fun _ => (asks_askAll references).map

theorem ChainOf.asks_ask (chain : ChainOf Reference) : Asks chain.ask ⟨chain.links, none⟩ :=
  (asks_askAll chain.links).map

mutual

theorem ValueOf.asks_ask : ∀ value : ValueOf Reference, Asks value.ask value.outline
  | .chain chain => chain.asks_ask.map
  | .constant _ => .ofPure _
  | .literal reference => (Asks.ofCode reference).map
  | .call call => (InvocationOf.asks_ask call).map

theorem asks_askParams :
    ∀ values : List (ValueOf Reference), Asks (askParams values) (paramsOutline values)
  | [] => .ofPure _
  | value :: values => value.asks_ask.bind fun _ => (asks_askParams values).map

theorem asks_askHash :
    ∀ hash : List (String × ValueOf Reference), Asks (askHash hash) (hashOutline hash)
  | [] => .ofPure _
  | (_, value) :: hash => value.asks_ask.bind fun _ => (asks_askHash hash).map

theorem InvocationOf.asks_ask : ∀ call : InvocationOf Reference (ValueOf Reference),
    Asks (InvocationOf.ask call) (InvocationOf.outline call)
  | ⟨_, _, .helper helper ⟨params, hash⟩⟩ =>
    (Asks.ofCode helper).bind fun _ => (asks_askParams params).bind fun _ => (asks_askHash hash).map
  | ⟨_, _, .ambiguous member helper⟩ =>
    (Asks.ofCode member).bind fun _ => (Asks.ofCode helper).map
  | ⟨_, _, .applied value ⟨params, hash⟩⟩ =>
    value.asks_ask.bind fun _ => (asks_askParams params).bind fun _ => (asks_askHash hash).map
  | ⟨_, _, .plain value _⟩ => value.asks_ask.map
  | ⟨_, _, .refused⟩ => .failed _

end

/-! ## 2. Lines and bodies -/

/-- The outline of the name of a partial. -/
def PartialNameOf.outline : PartialNameOf Reference → Outline
  | .known _ lookup => .one lookup
  | .computed call => InvocationOf.outline call

/-- The outline of the context of a partial. -/
def contextOutline : Option (ValueOf Reference) → Outline
  | none => .nothing
  | some value => value.outline

mutual

/-- The outline of a line. -/
def LineOf.outline : LineOf Reference → Outline
  | .chunk reference => .one reference
  | .escaped call => InvocationOf.outline call
  | .unescaped call => InvocationOf.outline call
  | .block main inverse call =>
    sectionOutline main ++ (sectionOutline inverse ++ InvocationOf.outline call)
  | .partialTemplate name context hash fallback =>
    name.outline ++ (contextOutline context ++ (hashOutline hash ++ sectionOutline fallback))

/-- The outline of lines. -/
def linesOutline : List (LineOf Reference) → Outline
  | [] => .nothing
  | line :: lines => line.outline ++ linesOutline lines

/-- The outline of a section. -/
def sectionOutline : Option (BodyOf (LineOf Reference)) → Outline
  | none => .nothing
  | some ⟨lines, _⟩ => linesOutline lines

end

theorem PartialNameOf.asks_ask : ∀ name : PartialNameOf Reference, Asks name.ask name.outline
  | .known _ lookup => (Asks.ofCode lookup).map
  | .computed call => (InvocationOf.asks_ask call).map

theorem asks_askContext? : ∀ context : Option (ValueOf Reference),
    Asks (askContext? context) (contextOutline context)
  | none => .ofPure _
  | some value => value.asks_ask.map

mutual

theorem LineOf.asks_ask : ∀ line : LineOf Reference, Asks line.ask line.outline
  | .chunk reference => (Asks.ofCode reference).map
  | .escaped call => (InvocationOf.asks_ask call).map
  | .unescaped call => (InvocationOf.asks_ask call).map
  | .block main inverse call =>
    (asks_askBody? main).bind fun _ => (asks_askBody? inverse).bind fun _ =>
      (InvocationOf.asks_ask call).map
  | .partialTemplate name context hash fallback =>
    name.asks_ask.bind fun _ => (asks_askContext? context).bind fun _ =>
      (asks_askHash hash).bind fun _ => (asks_askBody? fallback).map

theorem asks_askLines :
    ∀ lines : List (LineOf Reference), Asks (askLines lines) (linesOutline lines)
  | [] => .ofPure _
  | line :: lines => line.asks_ask.bind fun _ => (asks_askLines lines).map

theorem asks_askBody? : ∀ body : Option (BodyOf (LineOf Reference)),
    Asks (askBody? body) (sectionOutline body)
  | none => .ofPure _
  | some ⟨lines, _⟩ => (asks_askLines lines).map

end

/-- **A spec tree is asked about along its outline.** -/
theorem BodyOf.asks_ask (body : BodyIn Reference) : Asks body.ask (linesOutline body.lines) :=
  (asks_askLines body.lines).map

/-! ## 3. Templates -/

/-- The outline of the compilation of a template: that of its spec tree, unless the template does not
    read. -/
def compilationOutline (hints : Hints) (source : String) : Outline :=
  match Program.parse source with
  | .ok program => linesOutline (program.spec hints).lines
  | .error error => ⟨[], some error⟩

/-- **A template is asked about along its outline**, whoever answers. -/
theorem asks_compilation (hints : Hints) (source : String) :
    Asks (compilation hints source) (compilationOutline hints source) := by
  unfold compilation compilationOutline
  cases Program.parse source with
  | ok program => exact (program.spec hints).asks_ask.map
  | error error => exact .failed error

/-- A tag with one word in it names a partial. -/
theorem ofTokens_namesPartial {name : String} {shorter : [].length < [Token.id name].length}
    (h : readLookup [.id name] = .ok ⟨.lookup (.ofNames false 0 [name] name), [], shorter⟩)
    (position : Position) :
    PartialHead.ofTokens position [.id name] =
      .ok ⟨.lookup (.ofNames false 0 [name] name), none, []⟩ := by
  unfold PartialHead.ofTokens readArguments
  dsimp only
  rw [h]
  rfl

/-- The template that names one partial asks about it, and that is all. -/
theorem outline_namesPartial (hints : Hints) :
    compilationOutline hints "\x7b\x7b>b\x7d\x7d" =
      ⟨[.symbol .partialTemplate .partials "b"], none⟩ := by
  have tokens : Token.tokenize ['b'] = .ok [.id "b"] := Token.tokenize_word (by decide)
  have pieces : pieces "\x7b\x7b>b\x7d\x7d".toList =
      [.tag ⟨.partialTemplate, false, false, ['b']⟩ .start] := by decide +kernel
  have scanned : scan "\x7b\x7b>b\x7d\x7d" =
      .ok [.tag ⟨.partialTemplate, [.id "b"], .start⟩] := by
    rw [scan, pieces, Segment.ofPieces, Segment.readTag]
    dsimp only
    rw [tokens]
    rfl
  have parsed : Program.parse "\x7b\x7b>b\x7d\x7d" =
      .ok ⟨[.partialTemplate (.lookup (.ofNames false 0 ["b"] "b")) none [] none], []⟩ := by
    rw [Program.parse, scanned]
    show Program.ofSegments [.tag ⟨.partialTemplate, [.id "b"], .start⟩] = _
    unfold Program.ofSegments readBody readBody
    dsimp only
    rw [ofTokens_namesPartial rfl]
    rfl
  rw [compilationOutline, parsed]
  rfl

/-- What is called as a helper, with its arguments as values. -/
theorem Call.invocation_of_helper {hints : Hints} {scope : Scope} {isSub : Bool} {name : String}
    {call : Call} (h : call.calleeKind hints scope isSub = .helper name) :
    Call.invocation hints scope isSub call = ⟨name, call.position, .helper (helperReference name)
      ⟨paramValues hints scope call.params, hashValues hints scope call.hash⟩⟩ := by
  obtain ⟨callee, params, hash, position⟩ := call
  unfold Call.invocation
  dsimp only
  rw [h]
  rfl

/-- A call of `m` with the member `n`, at a position. -/
def callAt (position : Position) : Call :=
  ⟨.lookup (.ofNames false 0 ["m"] "m"), [.lookup (.ofNames false 0 ["n"] "n")], [], position⟩

/-- The call at the start of a template. -/
abbrev callWith : Call := callAt .start

theorem ofTokens_callsWith (position : Position) :
    Call.ofTokens position [.id "m", .id "n"] = .ok (callAt position) := by
  have arguments : readArguments position false [.id "n"] =
      .ok ⟨[.lookup (.ofNames false 0 ["n"] "n")], [], [], by simp⟩ := by
    rw [readArguments]
    · rw [if_neg Bool.false_ne_true, readExpr]
      show (do
        let more ← readArguments position false []
        _) = _
      rw [readArguments]
      rfl
    all_goals simp
  have callee : readExpr position [.id "m", .id "n"] =
      .ok ⟨.lookup (.ofNames false 0 ["m"] "m"), [.id "n"], by simp⟩ := by
    rw [readExpr]
    rfl
  rw [Call.ofTokens, readCall, if_neg (List.cons_ne_nil _ _), callee]
  show (do
    let arguments ← readArguments position false [.id "n"]
    _) >>= _ = _
  rw [arguments]
  rfl

theorem parse_callsWith :
    Program.parse "\x7b\x7bm n\x7d\x7d" = .ok ⟨[.mustache callWith true], []⟩ := by
  have tokens : Token.tokenize ['m', ' ', 'n'] = .ok [.id "m", .id "n"] :=
    @Token.tokenize_words 'm' 'n' [] [] (by decide) (by decide)
  have pieces : pieces "\x7b\x7bm n\x7d\x7d".toList =
      [.tag ⟨.escaped, false, false, ['m', ' ', 'n']⟩ .start] := by decide +kernel
  have scanned : scan "\x7b\x7bm n\x7d\x7d" =
      .ok [.tag ⟨.escaped, [.id "m", .id "n"], .start⟩] := by
    rw [scan, pieces, Segment.ofPieces, Segment.readTag]
    dsimp only
    rw [tokens]
    rfl
  rw [Program.parse, scanned]
  show Program.ofSegments [.tag ⟨.escaped, [.id "m", .id "n"], .start⟩] = _
  unfold Program.ofSegments readBody
  dsimp only
  rw [if_neg (by decide), ofTokens_callsWith, readBody]
  rfl

/-- Whoever has an argument is a helper. -/
theorem calleeKind_callWith {hints : Hints} (h : hints.knownHelpersOnly = false) (position : Position) :
    (callAt position).calleeKind hints [] false = .helper "m" := by
  have hname : (callAt position).callee.helperName? [] = some "m" := rfl
  have hargs : (callAt position).hasArguments = true := rfl
  rw [Call.calleeKind, hname]
  dsimp only
  rw [hargs, h]
  exact ite_self _

/-- So is whoever is known. -/
theorem calleeKind_known {hints : Hints} (h : "m" ∈ hints.known) :
    callWith.calleeKind hints [] false = .helper "m" := by
  have hname : callWith.callee.helperName? [] = some "m" := rfl
  rw [Call.calleeKind, hname]
  exact if_pos h

theorem outline_of_calleeKind {hints : Hints} (h : callWith.calleeKind hints [] false = .helper "m") :
    compilationOutline hints "\x7b\x7bm n\x7d\x7d" =
      ⟨[helperReference "m", .symbol .context .context "n"], none⟩ := by
  rw [compilationOutline, parse_callsWith]
  show InvocationOf.outline (Call.invocation hints [] false callWith) ++ Outline.nothing = _
  rw [Call.invocation_of_helper h]
  rfl

/-- The template that calls a helper with a member of the context asks about both, and that is all. -/
theorem outline_callsWith {hints : Hints} (h : hints.knownHelpersOnly = false) :
    compilationOutline hints "\x7b\x7bm n\x7d\x7d" =
      ⟨[helperReference "m", .symbol .context .context "n"], none⟩ :=
  outline_of_calleeKind (calleeKind_callWith h .start)

/-- The template that names two partials and calls a helper with a member of the context. -/
abbrev everyKind : String := "\x7b\x7b>$a\x7d\x7d\x7b\x7b>b\x7d\x7d\x7b\x7bm n\x7d\x7d"

theorem parse_everyKind : Program.parse everyKind =
    .ok ⟨[.partialTemplate (.lookup (.ofNames false 0 ["$a"] "$a")) none [] none,
      .partialTemplate (.lookup (.ofNames false 0 ["b"] "b")) none [] none,
      .mustache (callAt ⟨1, 14⟩) true], []⟩ := by
  have first : Token.tokenize ['$', 'a'] = .ok [.id "$a"] := Token.tokenize_word (by decide)
  have second : Token.tokenize ['b'] = .ok [.id "b"] := Token.tokenize_word (by decide)
  have third : Token.tokenize ['m', ' ', 'n'] = .ok [.id "m", .id "n"] :=
    @Token.tokenize_words 'm' 'n' [] [] (by decide) (by decide)
  have pieces : pieces everyKind.toList =
      [.tag ⟨.partialTemplate, false, false, ['$', 'a']⟩ .start,
        .tag ⟨.partialTemplate, false, false, ['b']⟩ ⟨1, 8⟩,
        .tag ⟨.escaped, false, false, ['m', ' ', 'n']⟩ ⟨1, 14⟩] := by decide +kernel
  have scanned : scan everyKind =
      .ok [.tag ⟨.partialTemplate, [.id "$a"], .start⟩, .tag ⟨.partialTemplate, [.id "b"], ⟨1, 8⟩⟩,
        .tag ⟨.escaped, [.id "m", .id "n"], ⟨1, 14⟩⟩] := by
    rw [scan, pieces]
    simp only [Segment.ofPieces, Segment.readTag, first, second, third]
    rfl
  rw [Program.parse, scanned]
  show Program.ofSegments [.tag ⟨.partialTemplate, [.id "$a"], .start⟩,
    .tag ⟨.partialTemplate, [.id "b"], ⟨1, 8⟩⟩, .tag ⟨.escaped, [.id "m", .id "n"], ⟨1, 14⟩⟩] = _
  unfold Program.ofSegments readBody readBody readBody readBody
  dsimp only
  rw [ofTokens_namesPartial rfl, ofTokens_namesPartial rfl, if_neg (by decide), ofTokens_callsWith]
  rfl

/-- The template of every kind asks about each of these, and that is all. -/
theorem outline_everyKind {hints : Hints} (h : hints.knownHelpersOnly = false) :
    compilationOutline hints everyKind =
      ⟨[.symbol .partialTemplate .partials "$a", .symbol .partialTemplate .partials "b",
        helperReference "m", .symbol .context .context "n"], none⟩ := by
  rw [compilationOutline, parse_everyKind]
  show (_ : Outline) ++ (_ ++ (InvocationOf.outline (Call.invocation hints [] false (callAt ⟨1, 14⟩)) ++
    Outline.nothing)) = _
  rw [Call.invocation_of_helper (calleeKind_callWith h _)]
  rfl

theorem parse_content : Program.parse "x" = .ok ⟨[.content "x"], []⟩ := by
  have pieces : pieces "x".toList = [.text ['x']] := by decide +kernel
  rw [Program.parse, scan, pieces]
  show Program.ofSegments [.content "x"] = _
  unfold Program.ofSegments readBody readBody
  rfl

/-- The template that is one letter asks about its text alone. -/
theorem outline_content (hints : Hints) : compilationOutline hints "x" = ⟨[.chunk "x"], none⟩ := by
  rw [compilationOutline, parse_content]
  rfl

end Stache
