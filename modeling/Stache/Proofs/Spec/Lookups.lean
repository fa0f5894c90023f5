import Stache.Proofs.Outcome
import Stache.Proofs.Spec.Filled
import Stache.Proofs.Text.Delimited

/-!
# The code of lookups

How a lookup is written when every reference is left as it is, and what can be told from it.

* `Base.chars_inj` -- different bases are written in different ways;
* `chainCode_inj` -- a chain tells its base and its names;
* `Lookup.code_eq_iff` -- **different lookups have different code**, the way up of data variables apart;
* `climbing_lost` -- that way up is read, but not written.
-/

namespace Stache

/-! ## 1. Bases -/

namespace Base

/-- A number up to the end of its brackets. -/
def indexChars (n : Nat) : List Char :=
  Nat.toDigits 10 n ++ [']']

/-- The characters of a base. -/
def chars : Base → List Char
  | .context => ['d', 'e', 'p', 't', 'h', '0']
  | .ancestor level => ['d', 'e', 'p', 't', 'h', 's', '['] ++ indexChars level
  | .parameter level slot =>
    ['b', 'l', 'o', 'c', 'k', 'P', 'a', 'r', 'a', 'm', 's', '['] ++ (indexChars level ++ '[' :: indexChars slot)
  | .data => ['d', 'a', 't', 'a']
  | .held => ['s', 't', 'a', 'c', 'k', '1']
  | .helpers => ['h', 'e', 'l', 'p', 'e', 'r', 's']
  | .partials => ['p', 'a', 'r', 't', 'i', 'a', 'l', 's']

theorem toList_text (base : Base) : base.text.toList = base.chars := by
  cases base with
  | ancestor level =>
    have hmark : "depths[".toList = ['d', 'e', 'p', 't', 'h', 's', '['] := String.toList_ofList
    have hend : "]".toList = [']'] := String.toList_ofList
    show ("depths[" ++ Nat.repr level ++ "]").toList = _
    rw [String.toList_append, String.toList_append, hmark, hend, Nat.toList_repr]
    rfl
  | parameter level slot =>
    have hmark : "blockParams[".toList = ['b', 'l', 'o', 'c', 'k', 'P', 'a', 'r', 'a', 'm', 's', '['] :=
      String.toList_ofList
    have hnext : "][".toList = [']', '['] := String.toList_ofList
    have hend : "]".toList = [']'] := String.toList_ofList
    show ("blockParams[" ++ Nat.repr level ++ "][" ++ Nat.repr slot ++ "]").toList = _
    simp only [String.toList_append, hmark, hnext, hend, Nat.toList_repr]
    simp [chars, indexChars]
  | _ => exact String.toList_ofList

theorem delimited_index : Text.Delimited indexChars := by
  refine Text.Delimited.stopped (fun _ _ h => Text.toDigits_inj h) ?_
  intro n hn
  have := Nat.isDigit_of_mem_toDigits (by decide) (by decide) hn
  simp at this

/-- **Different bases are written in different ways.** -/
theorem chars_inj {a b : Base} (h : a.chars = b.chars) : a = b := by
  cases a with
  | ancestor level =>
    cases b with
    | ancestor level' =>
      exact congrArg ancestor (delimited_index.inj (List.append_cancel_left h))
    | _ => simp [chars] at h
  | parameter level slot =>
    cases b with
    | parameter level' slot' =>
      obtain ⟨hlevel, hslot⟩ := delimited_index (List.append_cancel_left h)
      rw [hlevel, delimited_index.inj (List.cons.inj hslot).2]
    | _ => simp [chars] at h
  | _ =>
    cases b with
    | ancestor => simp [chars] at h
    | parameter => simp [chars] at h
    | _ => first | rfl | simp [chars] at h

theorem blank_not_mem (base : Base) : ' ' ∉ base.chars := by
  have hindex (n : Nat) : ' ' ∉ indexChars n := by
    intro hn
    obtain hn | hn := List.mem_append.mp hn
    · have := Nat.isDigit_of_mem_toDigits (by decide) (by decide) hn
      simp at this
    · simp at hn
  cases base with
  | _ => simp [chars, hindex]

theorem chars_cons (base : Base) : ∃ c more, base.chars = c :: more ∧ c ≠ '(' := by
  cases base with
  | _ => exact ⟨_, _, rfl, by decide⟩

theorem delimited_chars : Text.Delimited fun base : Base => base.chars ++ [' '] :=
  Text.Delimited.stopped (fun _ _ h => chars_inj h) blank_not_mem

end Base

/-! ## 2. Chains -/

/-- What a chain writes in front of all its members but the last one. -/
def chainMark : List Char :=
  ['(', '(', 's', 't', 'a', 'c', 'k', '1', ' ', '=', ' ']

/-- A member as it is looked up when nobody replaces it. -/
def memberCode (base : Base) (name : String) : List Char :=
  (Reference.default (.symbol .context base name)).toList

/-- The member looked up first. -/
def firstLink (both : Base × String) : List Char :=
  "(".toList ++ (both.1.chars ++ (" != null ? ".toList ++ (memberCode both.1 both.2 ++
    (" : ".toList ++ (both.1.chars ++ ")".toList)))))

/-- A member looked up on the one before. -/
def nextLink (name : String) : List Char :=
  ") != null ? ".toList ++ (memberCode .held name ++ " : stack1)".toList)

/-- How the lookups of names, one after the other, are written when every reference is left as it is. -/
def chainCode (base : Base) : List String → List Char
  | [] => base.chars
  | name :: names =>
    (List.replicate names.length chainMark).flatten ++ (firstLink (base, name) ++ names.flatMap nextLink)

theorem delimited_quote : Text.Delimited fun name : String => Text.quoted name.toList := by
  intro name other rest rest' h
  obtain ⟨hname, hrest⟩ := Text.delimited_quoted h
  exact ⟨String.ext hname, hrest⟩

theorem delimited_memberCode (base : Base) : Text.Delimited (memberCode base) := by
  intro name other rest rest' h
  have hcode (name : String) : memberCode base name = "lookupProperty(".toList ++ (base.text.toList ++
      (",".toList ++ (Text.quoted name.toList ++ ")".toList))) := by
    show ("lookupProperty(" ++ base.text ++ "," ++ Text.quote name ++ ")").toList = _
    simp only [Text.quote, String.toList_append, String.toList_ofList, List.append_assoc]
  simp only [hcode, List.append_assoc] at h
  obtain ⟨hname, hrest⟩ := delimited_quote
    (List.append_cancel_left (List.append_cancel_left (List.append_cancel_left h)))
  exact ⟨hname, List.append_cancel_left hrest⟩

theorem delimited_nextLink : Text.Delimited nextLink :=
  (delimited_memberCode .held).between _ _

theorem delimited_firstLink : Text.Delimited firstLink := by
  intro a b rest rest' h
  obtain ⟨base, name⟩ := a
  obtain ⟨base', name'⟩ := b
  have hmark : " != null ? ".toList = [' '] ++ "!= null ? ".toList := rfl
  simp only [firstLink, List.append_assoc] at h
  have hbase := List.append_cancel_left h
  rw [hmark, List.append_assoc, List.append_assoc, ← List.append_assoc _ [' '],
    ← List.append_assoc base'.chars [' ']] at hbase
  obtain ⟨rfl, hname⟩ := Base.delimited_chars hbase
  obtain ⟨rfl, hend⟩ := delimited_memberCode base (List.append_cancel_left hname)
  exact ⟨rfl, List.append_cancel_left (List.append_cancel_left (List.append_cancel_left hend))⟩

/-- How often the mark stands in front is told by what does not begin with it. -/
theorem replicate_inj {mark text text' : List Char} {m n : Nat} (h : ¬ mark <+: text) (h' : ¬ mark <+: text')
    (he : (List.replicate m mark).flatten ++ text = (List.replicate n mark).flatten ++ text') :
    m = n ∧ text = text' := by
  induction m generalizing n with
  | zero =>
    cases n with
    | zero => exact ⟨rfl, he⟩
    | succ n =>
      rw [List.replicate_succ, List.flatten_cons, List.append_assoc] at he
      exact absurd ⟨_, he.symm⟩ h
  | succ m ih =>
    rw [List.replicate_succ, List.flatten_cons, List.append_assoc] at he
    cases n with
    | zero => exact absurd ⟨_, he⟩ h'
    | succ n =>
      rw [List.replicate_succ, List.flatten_cons, List.append_assoc] at he
      obtain ⟨hmn, htext⟩ := ih (List.append_cancel_left he)
      exact ⟨congrArg (· + 1) hmn, htext⟩

theorem firstLink_unmarked (both : Base × String) (more : List Char) :
    ¬ chainMark <+: firstLink both ++ more := by
  obtain ⟨c, text, htext, hc⟩ := both.1.chars_cons
  rintro ⟨rest, h⟩
  rw [firstLink, htext] at h
  exact hc (List.cons.inj (List.cons.inj h).2).1.symm

/-- Members are written behind a parenthesis, a base alone is not. -/
theorem chainCode_cons_ne (base base' : Base) (name : String) (names : List String) :
    chainCode base (name :: names) ≠ base'.chars := by
  obtain ⟨c, text, htext, hc⟩ := base'.chars_cons
  rw [htext, chainCode]
  intro h
  cases names with
  | nil => exact hc (List.cons.inj h).1.symm
  | cons => exact hc (List.cons.inj h).1.symm

/-- **Lookups are told by their code**: the base that they begin on, and the names. -/
theorem chainCode_inj {base base' : Base} {names names' : List String}
    (h : chainCode base names = chainCode base' names') : base = base' ∧ names = names' := by
  cases names with
  | nil =>
    cases names' with
    | nil => exact ⟨Base.chars_inj h, rfl⟩
    | cons name' names' => exact absurd h.symm (chainCode_cons_ne _ _ _ _)
  | cons name names =>
    cases names' with
    | nil => exact absurd h (chainCode_cons_ne _ _ _ _)
    | cons name' names' =>
      obtain ⟨-, hchain⟩ := replicate_inj (firstLink_unmarked _ _) (firstLink_unmarked _ _) h
      obtain ⟨hfirst, hnext⟩ := delimited_firstLink hchain
      obtain ⟨rfl, rfl⟩ := Prod.mk.inj hfirst
      exact ⟨rfl, congrArg (name :: ·) (delimited_nextLink.flatMap_inj (fun _ => List.cons_ne_nil _ _) hnext)⟩

/-! ## 3. Lookups -/

/-- How a member is written behind what is written already. -/
theorem toList_link (written name : String) :
    ("((stack1 = " ++ written ++ ") != null ? " ++ Reference.default (.symbol .context .held name) ++
      " : stack1)").toList = chainMark ++ (written.toList ++ nextLink name) := by
  have hmember : (Reference.default (.symbol .context .held name)).toList = memberCode .held name := rfl
  have hmark : "((stack1 = ".toList = chainMark := String.toList_ofList
  show _ = chainMark ++ (written.toList ++
    (") != null ? ".toList ++ (memberCode .held name ++ " : stack1)".toList)))
  simp only [String.toList_append, hmember, hmark, List.append_assoc]

theorem toList_chainText (written : String) (names : List String) :
    (chainText written (names.map fun name => Reference.default (.symbol .context .held name))).toList =
      (List.replicate names.length chainMark).flatten ++ (written.toList ++ names.flatMap nextLink) := by
  induction names generalizing written with
  | nil => simp [chainText]
  | cons name names ih =>
    rw [List.map_cons, chainText, ih, toList_link, List.length_cons, List.replicate_succ',
      List.flatten_append, List.flatten_singleton, List.flatMap_cons]
    simp only [List.append_assoc]

theorem toList_chainOf (kind : LookupKind) (base : Base) (names : List String) :
    (ChainOf.text ⟨base, (linksOf kind base names).map Reference.default⟩).toList = chainCode base names := by
  cases names with
  | nil => exact base.toList_text
  | cons name names =>
    rw [linksOf, List.map_cons, List.map_map]
    show (chainText _ (names.map fun name => Reference.default (.symbol .context .held name))).toList = _
    rw [toList_chainText, chainCode]
    simp only [String.toList_append, Base.toList_text, firstLink, List.append_assoc]
    rfl

namespace Lookup

variable {scope : Scope} {a b l : Lookup}

/-- The base that a lookup begins on. -/
def base (scope : Scope) (l : Lookup) : Base :=
  if l.data then .data
  else
    match l.slot? scope with
    | some (level, slot) => .parameter level slot
    | none => if l.depth = 0 then .context else .ancestor l.depth

/-- The names that are looked up from there, one after the other. -/
def remaining (scope : Scope) (l : Lookup) : List String :=
  if (l.slot? scope).isSome then l.parts.tail else l.parts

/-- The code of a lookup when every reference is left as it is. -/
def code (scope : Scope) (l : Lookup) : Except SyntaxError String :=
  ((l.chain scope).ask.run leaveAll ()).1.map ChainOf.text

theorem slot?_of_data (h : l.data = true) : l.slot? scope = none := by
  simp [slot?, h]

theorem depth_of_slot? {slot : Nat × Nat} (h : l.slot? scope = some slot) : l.depth = 0 := by
  by_cases hdepth : l.depth = 0
  · exact hdepth
  · simp [slot?, hdepth] at h

theorem chain_eq (scope : Scope) (l : Lookup) :
    ∃ kind, l.chain scope = chainOf kind (l.base scope) (l.remaining scope) := by
  unfold chain base remaining
  cases hdata : l.data with
  | true => exact ⟨.data, by simp [slot?_of_data hdata]⟩
  | false =>
    cases hslot : l.slot? scope with
    | none => exact ⟨.context, by simp⟩
    | some slot => exact ⟨.context, by simp⟩

theorem base_of_data (h : l.data = true) : l.base scope = .data := by
  simp [base, h]

theorem base_of_slot? {slot : Nat × Nat} (hdata : l.data = false) (h : l.slot? scope = some slot) :
    l.base scope = .parameter slot.1 slot.2 := by
  simp [base, hdata, h]

theorem base_of_free (hdata : l.data = false) (h : l.slot? scope = none) :
    l.base scope = if l.depth = 0 then .context else .ancestor l.depth := by
  simp [base, hdata, h]

/-- The data variables are no context, and no block parameter. -/
theorem base_eq_data : l.base scope = .data ↔ l.data = true := by
  constructor
  · intro h
    cases hdata : l.data with
    | true => rfl
    | false =>
      cases hslot : l.slot? scope with
      | some slot =>
        rw [base_of_slot? hdata hslot] at h
        cases h
      | none =>
        rw [base_of_free hdata hslot] at h
        by_cases hdepth : l.depth = 0
        · simp [hdepth] at h
        · simp [hdepth] at h
  · exact base_of_data

/-- **A base tells** whether the lookup is about a data variable, how far up it begins unless it is, and the
    block parameter. -/
theorem base_eq_iff : a.base scope = b.base scope ↔
    a.data = b.data ∧ (a.data = false → a.depth = b.depth) ∧ a.slot? scope = b.slot? scope := by
  cases hdata : a.data with
  | true =>
    rw [base_of_data hdata, eq_comm, base_eq_data, slot?_of_data hdata]
    constructor
    · intro h
      exact ⟨h.symm, nofun, (slot?_of_data h).symm⟩
    · intro h
      exact h.1.symm
  | false =>
    cases hdata' : b.data with
    | true =>
      rw [base_of_data hdata', base_eq_data, hdata]
      simp
    | false =>
      simp only [true_and, forall_const]
      cases hslot : a.slot? scope with
      | some slot =>
        cases hslot' : b.slot? scope with
        | some slot' =>
          rw [base_of_slot? hdata hslot, base_of_slot? hdata' hslot', depth_of_slot? hslot, depth_of_slot? hslot']
          simp [Prod.ext_iff]
        | none =>
          rw [base_of_slot? hdata hslot, base_of_free hdata' hslot']
          by_cases hdepth : b.depth = 0
          · simp [hdepth]
          · simp [hdepth]
      | none =>
        cases hslot' : b.slot? scope with
        | some slot' =>
          rw [base_of_slot? hdata' hslot', base_of_free hdata hslot]
          by_cases hdepth : a.depth = 0
          · simp [hdepth]
          · simp [hdepth]
        | none =>
          rw [base_of_free hdata hslot, base_of_free hdata' hslot']
          by_cases hdepth : a.depth = 0
          · by_cases hdepth' : b.depth = 0
            · simp [hdepth, hdepth']
            · simp [hdepth, hdepth', eq_comm]
          · by_cases hdepth' : b.depth = 0
            · simp [hdepth, hdepth']
            · simp [hdepth, hdepth']

/-- The code of a lookup is written whatever it is: it tells the base and the names. -/
theorem code_eq (scope : Scope) (l : Lookup) : ∃ text, l.code scope = .ok text ∧
    text.toList = chainCode (l.base scope) (l.remaining scope) := by
  obtain ⟨kind, hchain⟩ := l.chain_eq scope
  have hrun := (gives_askAll (fun _ => none) (l.chain scope).links).map
    (f := fun links => ChainOf.mk (l.chain scope).base links) |>.run_eq ()
  refine ⟨_, congrArg (fun end' => end'.1.map ChainOf.text) hrun, ?_⟩
  rw [hchain]
  exact toList_chainOf kind _ _

/-- **Different lookups have different code**, the way up of data variables apart. -/
theorem code_eq_iff (scope : Scope) (a b : Lookup) : ∃ x y, a.code scope = .ok x ∧ b.code scope = .ok y ∧
    (x = y ↔ a.data = b.data ∧ (a.data = false → a.depth = b.depth) ∧ a.slot? scope = b.slot? scope ∧
      a.remaining scope = b.remaining scope) := by
  obtain ⟨x, hx, hxcode⟩ := a.code_eq scope
  obtain ⟨y, hy, hycode⟩ := b.code_eq scope
  refine ⟨x, y, hx, hy, ?_⟩
  constructor
  · intro h
    subst h
    obtain ⟨hbase, hnames⟩ := chainCode_inj (hxcode.symm.trans hycode)
    obtain ⟨hdata, hdepth, hslot⟩ := base_eq_iff.mp hbase
    exact ⟨hdata, hdepth, hslot, hnames⟩
  · rintro ⟨hdata, hdepth, hslot, hnames⟩
    have hbase := base_eq_iff.mpr ⟨hdata, hdepth, hslot⟩
    exact String.ext (by rw [hxcode, hycode, hbase, hnames])

end Lookup

/-! ## 4. Data variables further up -/

/-- `@../foo` -/
def climbing : Lookup := ⟨true, 1, ["foo"], false, "@../foo"⟩

/-- `@foo` -/
def staying : Lookup := ⟨true, 0, ["foo"], false, "@foo"⟩

/-- A data variable one level further up, and the one here. -/
def climbingSource : String := "\x7b\x7b@../foo\x7d\x7d\x7b\x7b@foo\x7d\x7d"

theorem scan_climbing : scan climbingSource =
    .ok [.tag ⟨.escaped, [.at, .dotDot, .sep .slash, .id "foo"], .start⟩,
      .tag ⟨.escaped, [.at, .id "foo"], ⟨1, 12⟩⟩] := by
  have tokens : Token.tokenize ['@', '.', '.', '/', 'f', 'o', 'o'] =
      .ok [.at, .dotDot, .sep .slash, .id "foo"] := eq_ok_of_toOption (by decide +kernel)
  have tokens' : Token.tokenize ['@', 'f', 'o', 'o'] = .ok [.at, .id "foo"] :=
    eq_ok_of_toOption (by decide +kernel)
  have pieces : pieces climbingSource.toList =
      [.tag ⟨.escaped, false, false, ['@', '.', '.', '/', 'f', 'o', 'o']⟩ .start,
        .tag ⟨.escaped, false, false, ['@', 'f', 'o', 'o']⟩ ⟨1, 12⟩] := by decide +kernel
  rw [scan, pieces]
  simp only [Segment.ofPieces, Segment.readTag, tokens, tokens']
  rfl

theorem ofTokens_climbing (position : Position) :
    Call.ofTokens position [.at, .dotDot, .sep .slash, .id "foo"] =
      .ok ⟨.lookup climbing, [], [], position⟩ := by
  rw [Call.ofTokens, readCall, if_neg (List.cons_ne_nil _ _), readExpr]
  show (do
    let arguments ← readArguments position false []
    _) >>= _ = _
  rw [readArguments]
  rfl

theorem ofTokens_staying (position : Position) :
    Call.ofTokens position [.at, .id "foo"] = .ok ⟨.lookup staying, [], [], position⟩ := by
  rw [Call.ofTokens, readCall, if_neg (List.cons_ne_nil _ _), readExpr]
  show (do
    let arguments ← readArguments position false []
    _) >>= _ = _
  rw [readArguments]
  rfl

/-- **The way up of a data variable is read, but its code does not tell it.** -/
theorem climbing_lost : ∃ a b : Lookup, Program.parse climbingSource =
      .ok ⟨[.mustache ⟨.lookup a, [], [], .start⟩ true, .mustache ⟨.lookup b, [], [], ⟨1, 12⟩⟩ true], []⟩ ∧
    a.code [] = b.code [] ∧ a.depth ≠ b.depth := by
  refine ⟨climbing, staying, ?_, rfl, by decide⟩
  rw [Program.parse, scan_climbing]
  show Program.ofSegments [.tag ⟨.escaped, [.at, .dotDot, .sep .slash, .id "foo"], .start⟩,
      .tag ⟨.escaped, [.at, .id "foo"], ⟨1, 12⟩⟩] = _
  unfold Program.ofSegments readBody
  dsimp only
  rw [if_neg (by decide), ofTokens_climbing, readBody, if_neg (by decide), ofTokens_staying, readBody]
  rfl

end Stache
