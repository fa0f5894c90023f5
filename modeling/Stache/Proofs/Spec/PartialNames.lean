import Stache.Proofs.Spec.Contents
import Stache.Proofs.Template.Lexemes
import Stache.Proofs.Template.Tilde

/-!
# The names of partials

Whoever answers, a template that is accepted is asked about the partials that its tags name, and a name that is
a lookup is spelled from the tokens of its tag.

* `partialNames` -- the names of the partials of a source text;
* `perm_partialNames` -- **a template is asked about these names and no others**, each as often as it stands
  there;
* `Spelled`, `spelled_of_scan` -- how such a name is written in the source text, and when it is spelled so.
-/

namespace Stache

/-! ## 1. The partials of a source text -/

/-- The name of a partial that is asked about. -/
def Reference.partialName? : Reference → Option String
  | .symbol .partialTemplate _ name => some name
  | _ => none

/-- The names of the partials among references. -/
def askedPartials (references : List Reference) : List String :=
  references.filterMap Reference.partialName?

/-- The name of a node that is a partial, unless it is computed. -/
def Node.partialName? : Node → Option String
  | .partialTemplate name _ _ => name.partialName?
  | _ => none

/-- The name in the tag of a partial or of a partial block, unless it is computed. -/
def Segment.partialName? (segment : Segment) : Option String :=
  match segment.part with
  | .ok part => part.node?.bind Node.partialName?
  | .error _ => none

/-- The names of the partials of a source text, in their order. Computed names are left out. -/
def partialNames (source : String) : List String :=
  match scan source with
  | .ok segments => segments.filterMap Segment.partialName?
  | .error _ => []

/-- Partials are asked about for nodes only. -/
theorem askedPartials_own (references : List Reference) :
    askedPartials (references.filter Reference.isOwn) = askedPartials references :=
  filterMap_own Reference.partialName? (fun reference hown => by
    rcases reference with ⟨_ | _ | _ | _, base, name⟩ | value | text <;> first | rfl | cases hown) references

/-- **The partials asked about for nodes** are those that the nodes name. -/
theorem askedPartials_nodes (nodes : List Node) :
    askedPartials (nodes.filterMap Node.reference?) = nodes.filterMap Node.partialName? := by
  unfold askedPartials
  rw [List.filterMap_filterMap]
  refine congrArg (List.filterMap · nodes) (funext fun node => ?_)
  cases node with
  | content text =>
    rw [Node.reference?]
    split <;> rfl
  | partialTemplate name context hash => cases name <;> rfl
  | mustache | block => rfl

theorem Segment.partialName?_eq {segment : Segment} {part : Part} (h : segment.part = .ok part) :
    segment.partialName? = part.node?.bind Node.partialName? := by
  rw [Segment.partialName?, h]

/-- **A template that is accepted is asked about the partials that its source text names**, each as often. -/
theorem perm_partialNames {σ : Type} {hints : Hints} {source : String}
    {policy : Reference → σ → Option String × σ} {state : σ} {code : String}
    (h : ((compilation hints source).run policy state).1 = .ok code) :
    (askedPartials ((compilation hints source).asked policy state)).Perm (partialNames source) := by
  obtain ⟨program, hparse⟩ := exists_parse h
  obtain ⟨segments, parts, hscan, hparts, _, hperm, _⟩ := nodes_parse hparse
  have hnames : partialNames source = (partNodes parts).filterMap Node.partialName? := by
    rw [partialNames, hscan]
    exact ((Reads.iff_mapM.mpr hparts).filterMap_eq fun _ _ => Segment.partialName?_eq).trans
      (List.append_nil _)
  rw [hnames, ← askedPartials_own, own_compilation hparse h, askedPartials_nodes]
  exact hperm.filterMap _

/-! ## 2. How they are written -/

/-- No lookup begins with another token than these. -/
theorem Lookup.read_first {token : Token} {tokens : List Token} {r : Read Lookup (token :: tokens)}
    (h : Lookup.read (token :: tokens) = .ok r) :
    token = .at ∨ token = .dotDot ∨ ∃ name, token = .id name := by
  cases token <;> first | cases h | simp

/-- A name that can be read as a lookup is read as one. -/
theorem PartialHead.name_eq {position : Position} {tokens : List Token} {head : PartialHead}
    (h : PartialHead.ofTokens position tokens = .ok head) {r : Read Lookup tokens}
    (hread : Lookup.read tokens = .ok r) : head.name = .lookup r.value := by
  cases tokens with
  | nil => cases hread
  | cons token tokens =>
    rcases Lookup.read_first hread with rfl | rfl | ⟨name, rfl⟩
    all_goals
      simp only [PartialHead.ofTokens, readLookup, hread] at h
      obtain ⟨_, hname, h⟩ := bind_eq_ok.mp h
      cases hname
      obtain ⟨_, hrest, h⟩ := bind_eq_ok.mp h
      cases hrest
      obtain ⟨arguments, _, h⟩ := bind_eq_ok.mp h
      split at h <;> cases h <;> rfl

/-- The tag is that of a partial, with a body or without. -/
def Tag.IsPartial (tag : Tag) : Prop :=
  tag.kind = .partialTemplate ∨ tag.kind = .partialBlock

/-- **A partial whose name is a lookup** has the spelling of the lookup as its name. -/
theorem Tag.partialName_of_read {tag : Tag} {part : Part} (hkind : tag.IsPartial)
    (hpart : (Segment.tag tag).part = .ok part) {r : Read Lookup tag.tokens}
    (hread : Lookup.read tag.tokens = .ok r) : (Segment.tag tag).partialName? = some r.value.spelling := by
  have named {head : PartialHead} (hhead : PartialHead.ofTokens tag.position tag.tokens = .ok head) :
      head.name.partialName? = some r.value.spelling := by
    rw [PartialHead.name_eq hhead hread]
    rfl
  rw [Segment.partialName?_eq hpart]
  rw [Segment.part, Tag.part] at hpart
  rcases hkind with hkind | hkind
  all_goals
    simp only [hkind] at hpart
    cases hhead : PartialHead.ofTokens tag.position tag.tokens with
    | error fault =>
      rw [hhead] at hpart
      cases hpart
    | ok head =>
      rw [hhead] at hpart
      cases hpart
      exact named hhead

/-- Segments that are read are parts. -/
theorem Reads.part_of_mem {segments rest : List Segment} {parts : List Part} (h : Reads segments parts rest)
    {segment : Segment} (hm : segment ∈ segments) :
    (∃ part, segment.part = .ok part) ∨ segment ∈ rest := by
  induction h with
  | nil => exact .inr hm
  | cons first _ ih =>
    rcases List.mem_cons.mp hm with rfl | hm
    · exact .inl ⟨_, first⟩
    · exact ih hm

/-- **How the lookup of a tag is written.** The tag is written in the source text where it was read, and the
    lookup in the inside of the tag, behind blanks at most. Without blanks and brackets it is spelled as it is
    written, but for single dots that are the name `this`: with one of them, it is not. -/
def Spelled (source : String) (tag : Tag) (r : Read Lookup tag.tokens) : Prop :=
  ∃ front written behind, source.toList = front ++ (WrittenTag.text written ++ behind) ∧
    tag.position = Position.start.after front ∧ tag.kind = written.kind ∧
      (∃ path, WrittenAt written.held path r) ∧
      ∀ path, WrittenAt written.held path r →
        (∃ blanks more, written.held = blanks ++ (textOf path ++ more) ∧ ∀ c ∈ blanks, Text.isBlank c = true) ∧
        (Lexeme.Bare (textOf path) → r.value.spelling.toList = dotsAsThis path ∧
          (r.value.spelling.toList = textOf path ↔ .loneDot ∉ path))

/-- **The lookups of an accepted source text are written in it**, and spelled so. -/
theorem spelled_of_scan {source : String} {segments : List Segment} (h : scan source = .ok segments) {tag : Tag}
    (hm : .tag tag ∈ segments) {r : Read Lookup tag.tokens} (hread : Lookup.read tag.tokens = .ok r) :
    Spelled source tag r := by
  obtain ⟨kind, tokens, position⟩ := tag
  obtain ⟨before, after, rfl⟩ := List.append_of_mem hm
  obtain ⟨layout, htext, hproper, -, hshows⟩ := scan_layout h
  obtain ⟨front, written, behind, hwritten, hposition, hkind, hholds, -⟩ := hshows.replaced hproper
  have htokens : Token.tokenize written.held = .ok tokens := by
    rw [WrittenTag.Holds] at hholds
    split at hholds
    · subst hholds
      cases hread
    · exact hholds
  refine ⟨front, written, behind, htext.symm.trans hwritten, hposition, hkind, writtenAt_read htokens hread, ?_⟩
  intro path hpath
  refine ⟨hpath.stands, fun hbare => ?_⟩
  rw [hpath.spelling_eq hbare]
  exact ⟨rfl, dotsAsThis_eq_iff⟩

/-- **The partials of an accepted template**: where the name is a lookup, it is the spelling of the lookup. -/
theorem named_of_compilation {σ : Type} {hints : Hints} {source : String}
    {policy : Reference → σ → Option String × σ} {state : σ} {code : String}
    (h : ((compilation hints source).run policy state).1 = .ok code) :
    ∃ segments, scan source = .ok segments ∧ ∀ tag, .tag tag ∈ segments → tag.IsPartial →
      ∀ r : Read Lookup tag.tokens, Lookup.read tag.tokens = .ok r →
        (Segment.tag tag).partialName? = some r.value.spelling ∧ Spelled source tag r := by
  obtain ⟨program, hparse⟩ := exists_parse h
  obtain ⟨segments, parts, hscan, hparts, _⟩ := nodes_parse hparse
  refine ⟨segments, hscan, fun tag hm hkind r hread => ⟨?_, spelled_of_scan hscan hm hread⟩⟩
  obtain ⟨part, hpart⟩ := ((Reads.iff_mapM.mpr hparts).part_of_mem hm).resolve_right List.not_mem_nil
  exact Tag.partialName_of_read hkind hpart hread

/-- A partial in the directory of the template. -/
def dotSource : String := "\x7b\x7b> ./b\x7d\x7d"

def dotTokens : List Token :=
  [.id "this", .sep .slash, .id "b"]

def dotPath : List Lexeme :=
  [.loneDot, ⟨['/'], some (.sep .slash)⟩, ⟨['b'], some (.id "b")⟩]

theorem lexed_dot : Lexed false [' ', '.', '/', 'b'] (⟨[' '], none⟩ :: dotPath) :=
  have word : Token.IsWord 'b' [] := by decide
  .cons (f := ⟨none, ['.', '/', 'b'], by simp⟩) rfl rfl <|
    .cons (f := ⟨some (.id "this"), ['/', 'b'], by simp⟩) rfl rfl <|
      .cons (f := ⟨some (.sep .slash), ['b'], by simp⟩) rfl rfl <|
        .cons (f := Token.wordFront 'b' []) (Token.front_word word false []) rfl (.nil _)

theorem tokenize_dot : Token.tokenize [' ', '.', '/', 'b'] = .ok dotTokens := by
  have hdot : Token.front false '.' ['/', 'b'] = .ok ⟨some (.id "this"), ['/', 'b'], by simp⟩ := rfl
  have hslash : Token.front true '/' ['b'] = .ok ⟨some (.sep .slash), ['b'], by simp⟩ := rfl
  have hword : Token.tokenize ['b'] = .ok [.id "b"] := Token.tokenize_word (by decide)
  rw [Token.tokenize] at hword
  rw [Token.tokenize, Token.readAll_blank (by decide), Token.readAll_of_front hdot]
  show (Token.readAll true ['/', 'b']).map _ = _
  rw [Token.readAll_of_front hslash]
  show ((Token.readAll false ['b']).map _).map _ = _
  rw [hword]
  rfl

theorem scan_dot : scan dotSource = .ok [.tag ⟨.partialTemplate, dotTokens, ⟨1, 1⟩⟩] := by
  have pieces : pieces dotSource.toList =
      [.tag ⟨.partialTemplate, false, false, [' ', '.', '/', 'b']⟩ ⟨1, 1⟩] := by decide +kernel
  rw [scan, pieces]
  simp only [Segment.ofPieces, Segment.readTag, tokenize_dot]
  rfl

theorem outline_dot (hints : Hints) : compilationOutline hints dotSource =
    ⟨[.symbol .partialTemplate .partials "this/b"], none⟩ := by
  have head : PartialHead.ofTokens ⟨1, 1⟩ dotTokens =
      .ok ⟨.lookup (.ofNames false 0 ["this", "b"] "this/b"), none, []⟩ := by
    unfold PartialHead.ofTokens readArguments
    rfl
  have parts : [Segment.tag ⟨.partialTemplate, dotTokens, ⟨1, 1⟩⟩].mapM Segment.part =
      .ok [.partialTemplate ⟨.lookup (.ofNames false 0 ["this", "b"] "this/b"), none, []⟩] := by
    simp only [List.mapM_cons, List.mapM_nil, Segment.part, Tag.part, head]
    rfl
  have parsed : Program.parse dotSource =
      .ok ⟨[.partialTemplate (.lookup (.ofNames false 0 ["this", "b"] "this/b")) none [] none], []⟩ := by
    rw [Program.parse, scan_dot]
    exact Derives.ofSegments ⟨_, parts, .partialTemplate _ .nil, rfl⟩
  rw [compilationOutline, parsed]
  rfl

/-- **A single dot is respelled**: the name that is asked about is not the text of the path in the tag. -/
theorem dot_respelled :
    scan dotSource = .ok [.tag ⟨.partialTemplate, dotTokens, ⟨1, 1⟩⟩] ∧
    (∃ r : Read Lookup dotTokens, Lookup.read dotTokens = .ok r ∧ WrittenAt [' ', '.', '/', 'b'] dotPath r) ∧
    Lexeme.Bare (textOf dotPath) ∧ textOf dotPath = ['.', '/', 'b'] ∧
    askedPartials ((compilation ⟨false, ∅⟩ dotSource).asked (fun _ state => (none, state)) ()) = ["this/b"] := by
  refine ⟨scan_dot, ⟨_, rfl, ⟨[⟨[' '], none⟩], [], lexed_dot, ?_, rfl⟩, ⟨nofun, ?_, ?_⟩, ?_⟩, ?_, rfl, ?_⟩
  · simp
  · rintro _ ⟨⟩
    exact nofun
  · rintro _ ⟨⟩
    exact nofun
  · exact ⟨by decide, rfl⟩
  · intro c hc
    have hc : c = '.' ∨ c = '/' ∨ c = 'b' := by simpa [textOf, dotPath, Lexeme.loneDot] using hc
    rcases hc with rfl | rfl | rfl <;> decide
  · rw [(asks_compilation ⟨false, ∅⟩ dotSource).asked_eq, outline_dot]
    rfl

end Stache
