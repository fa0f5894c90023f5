import Mathlib.Data.List.SplitBy
import Stache.Proofs.Search.Schedule
import Stache.Proofs.Text.Decoded
import Stache.Proofs.Text.Marks
import Stache.Proofs.Text.Mentions
import Stache.Symbol.Naming

/-!
# What static content becomes

Static content in which tokens are to be loaded becomes a concatenation: the tokens are loaded as modules, and
what stands between them is written as literals.

* `Operand`, `operands?` -- operands, and those that are read off the code of a concatenation;
* `operands?_concatenation` -- the code of operands is read back;
* `tokenRuns`, `chunkOperands` -- the runs of a text, and the operands that they become;
* `IsToken`, `loads_schedule` -- the tokens of a text, and that the loaded runs are those that match, in order;
* `ChunkScan.Holds`, `ChunkScan.readAll_runs` -- what the cursors tell between two runs, and that they write the
  operands of the runs;
* `inlineChunk_eq_runs` -- **the cursors agree with the runs**;
* `Pieces`, `chunkOperands_eq` -- operands that make up a text, and that those of the code do;
* `inlineChunk_inlined` -- **what static content becomes**.
-/

namespace Stache

/-! ## 1. Concatenations -/

/-- An operand of a concatenation. -/
inductive Operand where
  /-- A literal. -/
  | literal (text : String)
  /-- The load of the module with a request. -/
  | load (request : String)
  deriving DecidableEq, Repr

namespace Operand

/-- The text of the literal, or the request. -/
def text : Operand → String
  | literal text => text
  | load request => request

/-- What is loaded. -/
def request? : Operand → Option String
  | literal _ => none
  | load request => some request

/-- The code of an operand. -/
def code : Operand → String
  | literal text => Text.quote text
  | load request => loadText request

/-- The code before the quotes. -/
def opening : Operand → List Char
  | literal _ => []
  | load _ => "require(".toList

/-- The code behind the quotes. -/
def closing : Operand → List Char
  | literal _ => []
  | load _ => [')']

theorem toList_code (operand : Operand) :
    operand.code.toList = operand.opening ++ (Text.quoted operand.text.toList ++ operand.closing) := by
  cases operand with
  | literal text =>
    unfold code Text.quote
    rw [String.toList_ofList]
    exact (List.append_nil _).symm
  | load request =>
    unfold code loadText Text.quote
    simp only [String.toList_append, String.toList_ofList, List.append_assoc]
    rfl

end Operand

/-- The code of a concatenation. -/
def concatenation (operands : List Operand) : String :=
  " + ".intercalate (operands.map Operand.code)

/-- Reads an operand, given the code before the quotes, between them and behind them. What is left over stands
    behind the operand. -/
def readOperand? (opening literal behind : List Char) : Option (Operand × List Char) :=
  (Text.literalText? (String.ofList ('"' :: (literal ++ ['"'])))).bind fun text =>
    if opening = [] then some (.literal text, behind)
    else if opening = "require(".toList then
      (Text.afterMark? [')'] behind).map fun rest => (.load text, rest)
    else none

/-- Reads operands, given the code before the first quotes and the literals with what stands behind them. -/
def readOperands? (opening : List Char) : List (List Char × List Char) → Option (List Operand)
  | [] => none
  | (literal, behind) :: tail =>
    (readOperand? opening literal behind).bind fun (operand, rest) =>
      if tail = [] then if rest = [] then some [operand] else none
      else (Text.afterMark? " + ".toList rest).bind fun opening =>
        (readOperands? opening tail).map (operand :: ·)

/-- **The operands of a concatenation**, read off its code, if it is made of literals and of loads. -/
def operands? (code : String) : Option (List Operand) :=
  (Text.Parts.read? code.toList).bind fun parts => readOperands? parts.head parts.tail

/-- What the code of an operand is read as, in front of other code. -/
theorem Operand.read_code (operand : Operand) {rest : List Char} {behind : Text.Parts}
    (h : Text.Parts.read? rest = some behind) :
    Text.Parts.read? (operand.code.toList ++ rest) = some ⟨operand.opening,
      (operand.text.toList.flatMap Text.escapeChar, operand.closing ++ behind.head) :: behind.tail⟩ := by
  have hopening : Text.IsOutside operand.opening := Text.isOutside_of_all (by cases operand <;> rfl)
  have hclosing : Text.IsOutside operand.closing := Text.isOutside_of_all (by cases operand <;> rfl)
  rw [toList_code, List.append_assoc, List.append_assoc, Text.Parts.read_append hopening,
    Text.Parts.read_quoted, Text.Parts.read_append hclosing, h]
  simp only [Option.map_some, List.append_nil]

theorem Operand.readOperand_code (operand : Operand) (rest : List Char) :
    readOperand? operand.opening (operand.text.toList.flatMap Text.escapeChar) (operand.closing ++ rest) =
      some (operand, rest) := by
  have hliteral : Text.literalText? (String.ofList
      ('"' :: (operand.text.toList.flatMap Text.escapeChar ++ ['"']))) = some operand.text :=
    Text.literalText?_quote operand.text
  rw [readOperand?, hliteral, Option.bind_some]
  cases operand with
  | literal text => rfl
  | load request => rfl

/-- **The code of operands is read back.** -/
theorem operands?_concatenation {operands : List Operand} (hne : operands ≠ []) :
    operands? (concatenation operands) = some operands := by
  suffices h : ∃ parts, Text.Parts.read? (concatenation operands).toList = some parts ∧
      readOperands? parts.head parts.tail = some operands by
    obtain ⟨parts, hparts, hread⟩ := h
    rw [operands?, hparts, Option.bind_some, hread]
  induction operands with
  | nil => exact absurd rfl hne
  | cons operand operands ih =>
    cases operands with
    | nil =>
      have hparts := operand.read_code (show Text.Parts.read? [] = some ⟨[], []⟩ from rfl)
      rw [List.append_nil] at hparts
      refine ⟨_, (congrArg _ (congrArg _ String.intercalate_singleton)).trans hparts, ?_⟩
      rw [readOperands?, operand.readOperand_code]
      rfl
    | cons next operands =>
      obtain ⟨parts, hparts, hread⟩ := ih (List.cons_ne_nil _ _)
      have hplus : Text.Parts.read? (" + ".toList ++ (concatenation (next :: operands)).toList) =
          some ⟨" + ".toList ++ parts.head, parts.tail⟩ := by
        rw [Text.Parts.read_append (Text.isOutside_of_all rfl), hparts, Option.map_some]
      have hcode : (concatenation (operand :: next :: operands)).toList =
          operand.code.toList ++ (" + ".toList ++ (concatenation (next :: operands)).toList) := by
        unfold concatenation
        rw [List.map_cons, List.map_cons, String.intercalate_cons_cons, String.toList_append, String.toList_append,
          List.append_assoc]
      refine ⟨_, (congrArg _ hcode).trans (operand.read_code hplus), ?_⟩
      rw [readOperands?, operand.readOperand_code, Option.bind_some]
      have htail : parts.tail ≠ [] := fun h => by
        rw [h] at hread
        cases hread
      dsimp only
      rw [if_neg htail, Text.afterMark?_eq_some.mpr rfl, Option.bind_some, hread]
      rfl

/-! ## 2. Runs -/

/-- Both characters are delimiters, or none is. -/
abbrev sameKind (a b : Char) : Bool :=
  isTokenDelimiter a == isTokenDelimiter b

/-- The maximal runs of a text in which all characters are delimiters or none is, in order. -/
def tokenRuns (text : String) : List (List Char) :=
  text.toList.splitBy sameKind

/-- The run is a token that is to be loaded. -/
def isLoaded (inline : String → Bool) (run : List Char) : Bool :=
  !run.any isTokenDelimiter && inline (String.ofList run)

/-- The operands that runs of static content become: loaded tokens, and literals of all between them.
    `held` is the text of the literal that is still open. -/
def chunkOperands (inline : String → Bool) (held : List Char) : List (List Char) → List String
  | [] => if held = [] then [] else [Text.quote (String.ofList held)]
  | run :: runs =>
    if isLoaded inline run then
      (if held = [] then [] else [Text.quote (String.ofList held)]) ++
        loadText (String.ofList run) :: chunkOperands inline [] runs
    else chunkOperands inline (held ++ run) runs

/-! ## 3. Tokens -/

/-- The tokens of a text, by the number of characters before them: the longest runs of characters that are no
    delimiters. -/
inductive IsToken (text : String) : Nat → String → Prop
  /-- Such a run between delimiters, or at an end of the text. -/
  | run {before run after : List Char} :
    text.toList = before ++ (run ++ after) → run ≠ [] → (∀ c ∈ run, isTokenDelimiter c = false) →
    (∀ c ∈ before.getLast?, isTokenDelimiter c = true) → (∀ c ∈ after.head?, isTokenDelimiter c = true) →
    IsToken text before.length (String.ofList run)

section Tokens

variable {text : String}

theorem flatten_tokenRuns : (tokenRuns text).flatten = text.toList :=
  List.flatten_splitBy ..

theorem nil_notMem_tokenRuns : [] ∉ tokenRuns text :=
  List.nil_notMem_splitBy _ _

/-- A token is one of the runs. -/
theorem IsToken.split {start : Nat} {token : String} (h : IsToken text start token) :
    ∃ front back, tokenRuns text = front ++ token.toList :: back ∧ front.flatten.length = start ∧
      ∀ c ∈ token.toList, isTokenDelimiter c = false := by
  cases h with
  | @run before run after htext hne hrun hbefore hafter =>
    have hone : run.splitBy sameKind = [run] := by
      refine List.splitBy_of_isChain hne (List.Pairwise.isChain ?_)
      refine List.pairwise_of_forall_mem_list fun a ha b hb => ?_
      rw [sameKind, hrun a ha, hrun b hb]
      rfl
    have hruns : tokenRuns text = before.splitBy sameKind ++ run :: after.splitBy sameKind := by
      have hrest : (run ++ after).splitBy sameKind = run :: after.splitBy sameKind := by
        rw [List.splitBy_append, hone]
        · rfl
        · intro a ha b hb
          rw [sameKind, hrun a (List.mem_of_getLast? ha), hafter b hb]
          rfl
      rw [tokenRuns, htext, List.splitBy_append, hrest]
      intro a ha b hb
      rw [List.head?_append_of_ne_nil _ hne] at hb
      rw [sameKind, hbefore a ha, hrun b (List.mem_of_mem_head? hb)]
      rfl
    rw [String.toList_ofList]
    exact ⟨_, _, hruns, congrArg List.length (List.flatten_splitBy ..), hrun⟩

/-- A run without delimiters is a token: the runs next to it are of the other kind. -/
theorem IsToken.of_split {front back : List (List Char)} {run : List Char}
    (hruns : tokenRuns text = front ++ run :: back) (hrun : ∀ c ∈ run, isTokenDelimiter c = false) :
    IsToken text front.flatten.length (String.ofList run) := by
  have hne : run ≠ [] := by
    refine List.ne_nil_of_mem_splitBy (l := text.toList) (r := sameKind) ?_
    rw [show text.toList.splitBy sameKind = _ from hruns]
    exact List.mem_append_right _ List.mem_cons_self
  have hchain : (front ++ run :: back).IsChain
      fun a b => ∃ ha hb, sameKind (a.getLast ha) (b.head hb) = false := by
    rw [← hruns]
    exact List.isChain_getLast_head_splitBy ..
  obtain ⟨_, hback, hfront⟩ := List.isChain_append.mp hchain
  have hother {c d : Char} (hd : isTokenDelimiter d = false) (hk : sameKind c d = false ∨ sameKind d c = false) :
      isTokenDelimiter c = true := by
    simpa [sameKind, hd] using hk
  have htext : text.toList = front.flatten ++ (run ++ back.flatten) := by
    rw [← flatten_tokenRuns, hruns, List.flatten_append, List.flatten_cons]
  refine .run htext hne hrun (fun c hc => ?_) fun c hc => ?_
  · rcases List.eq_nil_or_concat front with rfl | ⟨front, last, rfl⟩
    · cases hc
    · obtain ⟨hl, hr, hk⟩ := hfront last (by simp) run rfl
      rw [List.concat_eq_append, List.flatten_append, List.flatten_singleton, List.getLast?_append_of_ne_nil _ hl,
        List.getLast?_eq_some_getLast hl] at hc
      cases hc
      exact hother (hrun _ (List.head_mem hr)) (.inl hk)
  · cases back with
    | nil => cases hc
    | cons next back =>
      obtain ⟨hr, hn, hk⟩ := (List.isChain_cons_cons.mp hback).1
      rw [List.flatten_cons, List.head?_append_of_ne_nil _ hn, List.head?_eq_some_head hn] at hc
      cases hc
      exact hother (hrun _ (List.getLast_mem hr)) (.inr hk)

theorem isLoaded_eq_true {inline : String → Bool} {run : List Char} : isLoaded inline run = true ↔
    (∀ c ∈ run, isTokenDelimiter c = false) ∧ inline (String.ofList run) = true := by
  unfold isLoaded
  rw [Bool.and_eq_true, Bool.not_eq_true', List.any_eq_false]
  simp only [Bool.not_eq_true]

/-- **The loaded runs are the tokens that match, in order.** -/
theorem loads_schedule (inline : String → Bool) (text : String) : Schedule (fun i j : Nat => i < j)
    (fun start token => IsToken text start token ∧ inline token = true)
    (((tokenRuns text).filter (isLoaded inline)).map String.ofList) := by
  refine (((Schedule.ofParts _ nil_notMem_tokenRuns).filter _).map _).congr fun start token => ?_
  simp only [isLoaded_eq_true]
  constructor
  · rintro ⟨run, ⟨⟨front, back, hruns, rfl⟩, hrun, hinline⟩, rfl⟩
    exact ⟨.of_split hruns hrun, hinline⟩
  · rintro ⟨htoken, hinline⟩
    obtain ⟨front, back, hruns, hstart, hrun⟩ := htoken.split
    rw [← String.ofList_toList (s := token)] at hinline
    exact ⟨_, ⟨⟨front, back, hruns, hstart⟩, hrun, hinline⟩, String.ofList_toList⟩

end Tokens

/-! ## 4. The cursors -/

/-- The runs of a text, one after the other: a token ends in front of a delimiter, or at the end. -/
inductive Runs : List (List Char) → Prop
  /-- There is no run. -/
  | nil : Runs []
  /-- First come delimiters. -/
  | delimiters {run : List Char} {runs : List (List Char)} : run ≠ [] →
    (∀ c ∈ run, isTokenDelimiter c = true) → Runs runs → Runs (run :: runs)
  /-- First comes a token. -/
  | token {run : List Char} {runs : List (List Char)} : run ≠ [] →
    (∀ c ∈ run, isTokenDelimiter c = false) → (∀ c ∈ runs.flatten.head?, isTokenDelimiter c = true) →
    Runs runs → Runs (run :: runs)

/-- All characters of a run are of one kind. -/
theorem kind_of_isChain {run : List Char} (h : run.IsChain fun a b => sameKind a b = true) :
    ∃ kind, ∀ c ∈ run, isTokenDelimiter c = kind := by
  induction run with
  | nil => exact ⟨true, nofun⟩
  | cons c run ih =>
    obtain ⟨hnext, hrun⟩ := List.isChain_cons.mp h
    obtain ⟨kind, hkind⟩ := ih hrun
    cases run with
    | nil => exact ⟨isTokenDelimiter c, by simp⟩
    | cons d run =>
      have hc : isTokenDelimiter c = isTokenDelimiter d := by simpa [sameKind] using hnext d rfl
      refine ⟨kind, List.forall_mem_cons.mpr ⟨?_, hkind⟩⟩
      rw [hc, hkind d List.mem_cons_self]

theorem runs_tokenRuns (text : String) : Runs (tokenRuns text) := by
  have hne : [] ∉ tokenRuns text := nil_notMem_tokenRuns
  have hkinds : ∀ run ∈ tokenRuns text, ∃ kind, ∀ c ∈ run, isTokenDelimiter c = kind :=
    fun run hm => kind_of_isChain (List.isChain_of_mem_splitBy hm)
  have hchain : (tokenRuns text).IsChain fun a b => ∃ ha hb, sameKind (a.getLast ha) (b.head hb) = false :=
    List.isChain_getLast_head_splitBy ..
  generalize tokenRuns text = runs at hne hkinds hchain
  induction runs with
  | nil => exact .nil
  | cons run runs ih =>
    obtain ⟨hrun, hne⟩ := not_or.mp (fun h => hne (List.mem_cons.mpr h))
    obtain ⟨hnext, hchain⟩ := List.isChain_cons.mp hchain
    obtain ⟨⟨kind, hkind⟩, hkinds⟩ := List.forall_mem_cons.mp hkinds
    have hruns := ih hne hkinds hchain
    cases kind with
    | true => exact .delimiters (Ne.symm hrun) hkind hruns
    | false =>
      refine .token (Ne.symm hrun) hkind (fun c hc => ?_) hruns
      cases runs with
      | nil => cases hc
      | cons next runs =>
        obtain ⟨hlast, hhead, hsame⟩ := hnext next rfl
        rw [List.flatten_cons, List.head?_append_of_ne_nil _ hhead, List.head?_eq_some_head hhead] at hc
        cases hc
        rw [sameKind, hkind _ (List.getLast_mem hlast)] at hsame
        simpa using hsame

theorem Cursor.forward_forward (place : Cursor) (count more : Nat) :
    (place.forward count).forward more = place.forward (count + more) := by
  unfold forward
  rw [List.drop_drop, Nat.add_assoc]

/-- The text between two places is what stands there. -/
theorem Cursor.upTo_eq {start stop : Cursor} {part behind : List Char} (hrest : start.rest = part ++ behind)
    (hindex : start.index + part.length = stop.index) : start.upTo stop = part := by
  rw [upTo, hrest, ← hindex, Nat.add_sub_cancel_left, List.take_left]

namespace ChunkScan

variable {inline : String → Bool} {scan : ChunkScan} {held rest run : List Char}

/-- No token is open, and what is not written yet is `held`, then `rest`. -/
structure Holds (scan : ChunkScan) (held rest : List Char) : Prop where
  token_eq : scan.token = none
  here_eq : scan.here.rest = rest
  literal_eq : scan.literal.rest = held ++ rest
  index_eq : scan.literal.index + held.length = scan.here.index

/-- What is held becomes a literal. -/
theorem Holds.writeLiteral (h : scan.Holds held rest) :
    (scan.writeLiteral scan.here).reverse =
      scan.operands.reverse ++ if held = [] then [] else [Text.quote (String.ofList held)] := by
  have hupTo : scan.literal.upTo scan.here = held := Cursor.upTo_eq h.literal_eq h.index_eq
  unfold ChunkScan.writeLiteral
  rw [hupTo]
  by_cases hheld : held = []
  · have hlt : ¬ scan.literal.index < scan.here.index := by
      rw [← h.index_eq, hheld]
      exact Nat.lt_irrefl _
    rw [if_neg hlt, if_pos hheld, List.append_nil]
  · have hlt : scan.literal.index < scan.here.index := by
      rw [← h.index_eq, Nat.lt_add_right_iff_pos, List.length_pos_iff]
      exact hheld
    rw [if_pos hlt, if_neg hheld, List.reverse_cons]

/-- Part of the rest may be held. -/
theorem Holds.hold (h : scan.Holds held (run ++ rest)) :
    Holds { scan with here := scan.here.forward run.length } (held ++ run) rest where
  token_eq := h.token_eq
  here_eq := by
    show scan.here.rest.drop run.length = rest
    rw [h.here_eq, List.drop_left]
  literal_eq := by rw [h.literal_eq, List.append_assoc]
  index_eq := by
    show _ = scan.here.index + run.length
    rw [List.length_append, ← Nat.add_assoc, h.index_eq]

/-- Characters that change no more than the place where the next one stands. -/
theorem foldl_read (h : ∀ c ∈ run, ∀ place, read inline { scan with here := place } c =
    { scan with here := place.forward 1 }) (place : Cursor) :
    run.foldl (read inline) { scan with here := place } = { scan with here := place.forward run.length } := by
  induction run generalizing place with
  | nil => rfl
  | cons c run ih =>
    obtain ⟨hc, hrun⟩ := List.forall_mem_cons.mp h
    rw [List.foldl_cons, hc, ih hrun, Cursor.forward_forward, List.length_cons, Nat.add_comm]

/-- Delimiters close nothing if no token is open. -/
theorem foldl_delimiters (hrun : ∀ c ∈ run, isTokenDelimiter c = true) (htoken : scan.token = none) :
    run.foldl (read inline) scan = { scan with here := scan.here.forward run.length } := by
  refine foldl_read (fun c hc place => ?_) scan.here
  rw [read, hrun c hc, if_pos rfl, close, htoken]

/-- A token is opened with its first character and stays open. -/
theorem foldl_token (hne : run ≠ []) (hrun : ∀ c ∈ run, isTokenDelimiter c = false)
    (htoken : scan.token = none) : run.foldl (read inline) scan =
      { scan with token := some scan.here, here := scan.here.forward run.length } := by
  cases run with
  | nil => exact absurd rfl hne
  | cons c run =>
    obtain ⟨hc, hrun⟩ := List.forall_mem_cons.mp hrun
    have hopen : read inline scan c = { scan with token := some scan.here, here := scan.here.forward 1 } := by
      rw [read, hc, if_neg Bool.false_ne_true, htoken]
      rfl
    have hstay := @foldl_read inline { scan with token := some scan.here } run
      (fun d hd place => by rw [read, hrun d hd, if_neg Bool.false_ne_true]; rfl) (scan.here.forward 1)
    rw [List.foldl_cons, hopen, hstay, Cursor.forward_forward, List.length_cons, Nat.add_comm]

theorem token_close : (scan.close inline).token = none := by
  unfold close
  split
  · assumption
  · dsimp only
    split <;> rfl

/-- What is closed is closed. -/
theorem close_close : (scan.close inline).close inline = scan.close inline := by
  rw [close, token_close]

/-- A token may be closed in front of a delimiter, and at the end. -/
theorem readAll_close (hrest : ∀ c ∈ rest.head?, isTokenDelimiter c = true) :
    scan.readAll inline rest = (scan.close inline).readAll inline rest := by
  cases rest with
  | nil => exact close_close.symm
  | cons c rest =>
    have hread : read inline scan c = read inline (scan.close inline) c := by
      rw [read, read, hrest c rfl, if_pos rfl, if_pos rfl, close_close]
    rw [readAll, readAll, List.foldl_cons, List.foldl_cons, hread]

/-- A token is loaded, with what was held before it as a literal, or it is held itself. -/
theorem Holds.readAll_token (h : scan.Holds held (run ++ rest)) (hne : run ≠ [])
    (hrun : ∀ c ∈ run, isTokenDelimiter c = false) (hrest : ∀ c ∈ rest.head?, isTokenDelimiter c = true) :
    scan.readAll inline (run ++ rest) =
      readAll inline
        (if inline (String.ofList run) then
          { here := scan.here.forward run.length, literal := scan.here.forward run.length,
            operands := loadText (String.ofList run) :: scan.writeLiteral scan.here, isMatched := true }
        else { scan with token := none, here := scan.here.forward run.length }) rest := by
  let opened : ChunkScan := { scan with token := some scan.here, here := scan.here.forward run.length }
  have hfold : run.foldl (read inline) scan = opened := foldl_token hne hrun h.token_eq
  have hupTo : scan.here.upTo (scan.here.forward run.length) = run := Cursor.upTo_eq h.here_eq rfl
  have hclose : opened.close inline =
      if inline (String.ofList run) then
        { here := scan.here.forward run.length, literal := scan.here.forward run.length,
          operands := loadText (String.ofList run) :: scan.writeLiteral scan.here, isMatched := true }
      else { scan with token := none, here := scan.here.forward run.length } := by
    show (if inline (String.ofList (scan.here.upTo (scan.here.forward run.length))) then _ else _) = _
    rw [hupTo]
    rfl
  rw [← hclose, ← readAll_close hrest, readAll, List.foldl_append, hfold]
  rfl

variable (inline) in
/-- **The cursors write the operands of the runs.** -/
theorem readAll_runs {runs : List (List Char)} (hruns : Runs runs) (h : scan.Holds held runs.flatten) :
    let last := scan.readAll inline runs.flatten
    last.isMatched = (scan.isMatched || runs.any (isLoaded inline)) ∧
      (last.writeLiteral last.here).reverse = scan.operands.reverse ++ chunkOperands inline held runs := by
  induction hruns generalizing scan held with
  | nil =>
    have hlast : scan.readAll inline [] = scan := by rw [readAll, List.foldl_nil, close, h.token_eq]
    rw [List.flatten_nil, hlast]
    exact ⟨(Bool.or_false _).symm, h.writeLiteral⟩
  | @delimiters run runs hne hrun _ ih =>
    have hloaded : isLoaded inline run = false := by
      obtain ⟨c, hc⟩ := List.exists_mem_of_ne_nil run hne
      rw [isLoaded, List.any_eq_true.mpr ⟨c, hc, hrun c hc⟩]
      rfl
    rw [List.flatten_cons] at h ⊢
    rw [readAll, List.foldl_append, foldl_delimiters hrun h.token_eq, List.any_cons, hloaded, Bool.false_or,
      chunkOperands, hloaded]
    exact ih h.hold
  | @token run runs hne hrun hhead _ ih =>
    have hloaded : isLoaded inline run = inline (String.ofList run) := by
      rw [isLoaded, List.any_eq_false.mpr fun c hc => by rw [hrun c hc]; exact Bool.false_ne_true]
      rfl
    rw [List.flatten_cons] at h ⊢
    rw [h.readAll_token hne hrun hhead, List.any_cons, hloaded, chunkOperands, hloaded]
    cases inline (String.ofList run) with
    | true =>
      rw [if_pos rfl, if_pos rfl]
      obtain ⟨hmatched, hoperands⟩ := @ih
        { here := scan.here.forward run.length, literal := scan.here.forward run.length,
          operands := loadText (String.ofList run) :: scan.writeLiteral scan.here, isMatched := true } []
        ⟨rfl, h.hold.here_eq, h.hold.here_eq, rfl⟩
      refine ⟨by simp only [hmatched, Bool.true_or, Bool.or_true], hoperands.trans ?_⟩
      rw [List.reverse_cons, h.writeLiteral]
      simp only [List.append_assoc, List.singleton_append]
    | false => exact ih ⟨rfl, h.hold.here_eq, h.hold.literal_eq, h.hold.index_eq⟩

end ChunkScan

/-- **The cursors agree with the runs**: static content becomes the operands of its runs, if a run is loaded. -/
theorem inlineChunk_eq_runs (inline : String → Bool) (text : String) :
    inlineChunk inline text =
      if (tokenRuns text).any (isLoaded inline) then
        some (" + ".intercalate (chunkOperands inline [] (tokenRuns text)))
      else none := by
  have hflatten : (tokenRuns text).flatten = text.toList := flatten_tokenRuns
  have hstart : ChunkScan.Holds { here := ⟨0, text.toList⟩, literal := ⟨0, text.toList⟩ } []
      (tokenRuns text).flatten :=
    ⟨rfl, hflatten.symm, hflatten.symm, rfl⟩
  obtain ⟨hmatched, hoperands⟩ := ChunkScan.readAll_runs inline (runs_tokenRuns text) hstart
  rw [hflatten] at hmatched hoperands
  rw [inlineChunk, hmatched, hoperands]
  rfl

/-! ## 5. Static content -/

/-- Operands for a text: together they are the text, these requests are loaded, no literal is empty, and between
    two literals something is loaded. -/
structure Pieces (text : List Char) (requests : List String) (operands : List Operand) : Prop where
  text_eq : operands.flatMap (·.text.toList) = text
  requests_eq : operands.filterMap Operand.request? = requests
  solid : .literal "" ∉ operands
  apart : operands.IsChain fun a b => a.request?.isSome ∨ b.request?.isSome

/-- The literal that is still open, if it has any text. -/
def heldOperand (held : List Char) : List Operand :=
  if held = [] then [] else [.literal (String.ofList held)]

namespace Pieces

variable {text : List Char} {requests : List String} {operands : List Operand}

theorem nil : Pieces [] [] [] :=
  ⟨rfl, rfl, List.not_mem_nil, .nil⟩

/-- A literal with some text may stand before what is loaded, and at the end. -/
theorem literal (h : Pieces text requests operands) (hfirst : ∀ operand ∈ operands.head?, operand.request?.isSome)
    {held : List Char} (hne : held ≠ []) :
    Pieces (held ++ text) requests (.literal (String.ofList held) :: operands) := by
  refine ⟨?_, h.requests_eq, ?_, List.isChain_cons.mpr ⟨fun operand ho => .inr (hfirst operand ho), h.apart⟩⟩
  · rw [List.flatMap_cons, h.text_eq, Operand.text, String.toList_ofList]
  · rw [List.mem_cons, not_or]
    refine ⟨fun e => hne ?_, h.solid⟩
    rw [← String.toList_ofList (l := held), ← Operand.literal.inj e]
    rfl

theorem held (h : Pieces text requests operands) (hfirst : ∀ operand ∈ operands.head?, operand.request?.isSome)
    (held : List Char) : Pieces (held ++ text) requests (heldOperand held ++ operands) := by
  unfold heldOperand
  split
  · rename_i hempty
    rw [hempty]
    exact h
  · exact h.literal hfirst ‹_›

/-- A load may stand anywhere. -/
theorem load (h : Pieces text requests operands) (token : List Char) :
    Pieces (token ++ text) (String.ofList token :: requests) (.load (String.ofList token) :: operands) := by
  refine ⟨?_, ?_, ?_, List.isChain_cons.mpr ⟨fun _ _ => .inl rfl, h.apart⟩⟩
  · rw [List.flatMap_cons, h.text_eq, Operand.text, String.toList_ofList]
  · exact congrArg (String.ofList token :: ·) h.requests_eq
  · rw [List.mem_cons, not_or]
    exact ⟨fun e => Operand.noConfusion e, h.solid⟩

end Pieces

/-- **The operands of the code** for some runs, behind the text that is held. -/
theorem chunkOperands_eq (inline : String → Bool) (held : List Char) (runs : List (List Char)) :
    ∃ operands, chunkOperands inline held runs = operands.map Operand.code ∧
      Pieces (held ++ runs.flatten) ((runs.filter (isLoaded inline)).map String.ofList) operands := by
  have hheld (held : List Char) : (if held = [] then [] else [Text.quote (String.ofList held)]) =
      (heldOperand held).map Operand.code := by
    unfold heldOperand
    split <;> rfl
  induction runs generalizing held with
  | nil =>
    refine ⟨heldOperand held, hheld held, ?_⟩
    rw [← List.append_nil (heldOperand held)]
    exact Pieces.nil.held (fun _ h => absurd h (Option.not_mem_none _)) held
  | cons run runs ih =>
    rw [chunkOperands]
    split
    · rename_i hload
      obtain ⟨operands, hcode, hpieces⟩ := ih []
      refine ⟨heldOperand held ++ .load (String.ofList run) :: operands, ?_, ?_⟩
      · rw [hheld, hcode, List.map_append, List.map_cons]
        rfl
      · rw [List.filter_cons_of_pos hload]
        exact (hpieces.load run).held (fun _ h => by cases h; rfl) held
    · rename_i hload
      obtain ⟨operands, hcode, hpieces⟩ := ih (held ++ run)
      rw [List.append_assoc] at hpieces
      refine ⟨operands, hcode, ?_⟩
      rw [List.filter_cons_of_neg hload]
      exact hpieces

/-- **What static content becomes.** Without a token that matches it stays as it is. With one, there is code for
    it: a concatenation of literals and loads, from which the operands can be read. Piece by piece they stand for
    the text, and what they load are the tokens that match, in order. -/
theorem inlineChunk_inlined (inline : String → Bool) (text : String) :
    (inlineChunk inline text = none ↔ ∀ start token, IsToken text start token → inline token = false) ∧
      ∀ code, inlineChunk inline text = some code → ∃ requests operands,
        code = concatenation operands ∧ operands? code = some operands ∧
        Pieces text.toList requests operands ∧
        Schedule (fun i j : Nat => i < j) (fun start token => IsToken text start token ∧ inline token = true)
          requests := by
  have hloads := loads_schedule inline text
  have hany : (tokenRuns text).any (isLoaded inline) = true ↔
      ((tokenRuns text).filter (isLoaded inline)).map String.ofList ≠ [] := by
    rw [List.any_eq_true, Ne, List.map_eq_nil_iff, List.filter_eq_nil_iff]
    push Not
    rfl
  rw [inlineChunk_eq_runs]
  constructor
  · rw [ite_eq_right_iff]
    simp only [reduceCtorEq, imp_false, hany, not_not, List.eq_nil_iff_forall_not_mem, hloads.mem_iff, not_exists,
      not_and, Bool.not_eq_true]
    exact forall_comm
  · intro code hcode
    obtain ⟨hmatch, hsome⟩ := Option.ite_none_right_eq_some.mp hcode
    obtain ⟨operands, hoperands, hpieces⟩ := chunkOperands_eq inline [] (tokenRuns text)
    have hne : operands ≠ [] := fun e => by
      have hrequests := hpieces.requests_eq
      rw [e] at hrequests
      exact hany.mp hmatch hrequests.symm
    obtain rfl : concatenation operands = code := by
      rw [concatenation, ← hoperands]
      exact Option.some.inj hsome
    rw [List.nil_append, flatten_tokenRuns] at hpieces
    exact ⟨_, operands, rfl, operands?_concatenation hne, hpieces, hloads⟩

/-- The token between the quotes is loaded, the quotes stay. -/
example : inlineChunk (· == "a.png") "<img src='a.png'>" =
    some "\"<img src='\" + require(\"a.png\") + \"'>\"" := by decide +kernel

end Stache
