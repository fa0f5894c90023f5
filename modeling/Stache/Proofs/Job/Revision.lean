import Stache.Proofs.Files.Changed
import Stache.Proofs.Job.Loading
import Stache.Proofs.Text.Marks
import Stache.Proofs.Text.Runs
import Stache.Text.Alphanumeric

/-!
# The revision that a runtime declares

The text of a runtime is searched for a number that is assigned to the name of the revision. The search does
not ask what stands before that name, so the end of a longer name is taken for it; and a number of more than
thirty-two bits counts as none.

* `Assigns`, `AssignedAt` -- digits are assigned at a place of a text;
* `firstAssigned?_eq_some` -- **the search finds the first of these places**;
* `declaredRevision?_eq_some` -- and reads the number that the digits there spell;
* `load_mismatched` -- a load without a stored module fails for the revision if that number is another one;
* `load_revision` -- **which runtimes are refused**.
-/

namespace Stache

open Text

/-! ## 1. Assignments -/

/-- An equals sign follows, with blanks around it, and digits up to where they end. -/
def Assigns (digits text : List Char) : Prop :=
  ∃ gap gap' after, text = gap ++ '=' :: (gap' ++ (digits ++ after)) ∧ (∀ c ∈ gap, isBlank c = true) ∧
    (∀ c ∈ gap', isBlank c = true) ∧ digits ≠ [] ∧ (∀ c ∈ digits, isDigit c = true) ∧
    ∀ c ∈ after.head?, isDigit c = false

/-- The name of the revision. -/
def revisionName : List Char :=
  "COMPILER_REVISION".toList

/-- Digits are assigned to the name of the revision that stands behind `before`, or to a longer name that ends
    there. -/
def AssignedAt (text before digits : List Char) : Prop :=
  ∃ behind, text = before ++ (revisionName ++ behind) ∧ Assigns digits behind

/-- Digits are assigned at the place, and at no earlier one. -/
def FirstAssigned (text before digits : List Char) : Prop :=
  AssignedAt text before digits ∧ ∀ other ds, AssignedAt text other ds → before.length ≤ other.length

/-- The name that begins behind `before` is not part of a longer one. -/
def isWhole (before : List Char) : Bool :=
  before.getLast?.all fun c => !isNameChar c && c != '$'

/-- Digits are assigned to the whole name, there and nowhere else. -/
structure AssignedOnce (text before digits : List Char) : Prop where
  assigned : AssignedAt text before digits
  whole : isWhole before = true
  once : ∀ other ds, AssignedAt text other ds → isWhole other = true → other = before

section Assignments

variable {c : Char} {text before digits ds : List Char}

theorem assignedDigits?_eq_some : assignedDigits? text = some digits ↔ Assigns digits text := by
  constructor
  · intro h
    obtain ⟨htext, hgap, _⟩ := run_takeWhile isBlank text
    unfold assignedDigits? at h
    split at h
    · rename_i behind hequals
      obtain ⟨hbehind, hgap', _⟩ := run_takeWhile isBlank behind
      obtain ⟨hdropped, hdigits, hafter⟩ := run_takeWhile isDigit (behind.dropWhile isBlank)
      split at h
      · cases h
      · rename_i hne
        cases h
        refine ⟨_, _, _, ?_, hgap, hgap', hne, hdigits, hafter⟩
        rw [← hdropped, ← hbehind, ← hequals, ← htext]
    · cases h
  · intro h
    obtain ⟨gap, gap', after, rfl, hgap, hgap', hne, hdigits, hafter⟩ := h
    -- the blanks end where the digits begin, since no digit is a blank
    have hfirst : ∀ c ∈ (digits ++ after).head?, isBlank c = false := by
      obtain ⟨d, rest, rfl⟩ := List.exists_cons_of_ne_nil hne
      intro c hc
      cases hc
      refine Bool.eq_false_iff.mpr fun hblank => ?_
      cases (isDigit_of_isBlank hblank).symm.trans (hdigits d List.mem_cons_self)
    have hequals := @takeWhile_run _ _ ('=' :: (gap' ++ (digits ++ after))) hgap fun c hc => by cases hc; decide
    have hbehind := takeWhile_run hgap' hfirst
    unfold assignedDigits?
    rw [hequals.2]
    split
    · rename_i behind htext
      obtain rfl := (List.cons.inj htext).2
      rw [hbehind.2, (takeWhile_run hdigits hafter).1]
      split
      · exact absurd rfl hne
      · rfl
    · rename_i hno
      exact absurd rfl (hno _)

/-- What is assigned at a place is told by the place. -/
theorem AssignedAt.unique (h : AssignedAt text before digits) (h' : AssignedAt text before ds) : digits = ds := by
  obtain ⟨behind, rfl, hdigits⟩ := h
  obtain ⟨other, heq, hds⟩ := h'
  have hsame := List.append_cancel_left (List.append_cancel_left heq)
  subst hsame
  exact Option.some.inj ((assignedDigits?_eq_some.mpr hdigits).symm.trans (assignedDigits?_eq_some.mpr hds))

/-- The name stands at the place. -/
theorem AssignedAt.stands (h : AssignedAt text before digits) :
    before.length < text.length ∧ text.take before.length = before ∧ revisionName <+: text.drop before.length := by
  obtain ⟨behind, rfl, _⟩ := h
  rw [List.take_left, List.drop_left]
  refine ⟨?_, rfl, List.prefix_append ..⟩
  rw [List.length_append, List.length_append]
  have hname : revisionName.length = 17 := rfl
  omega

/-- It is enough to look where the name stands. -/
theorem AssignedAt.once (h : AssignedAt text before digits) (hwhole : isWhole before = true)
    (hplaces : ∀ k < text.length, revisionName <+: text.drop k → isWhole (text.take k) = true → k = before.length) :
    AssignedOnce text before digits := by
  refine ⟨h, hwhole, fun other ds hother hw => ?_⟩
  obtain ⟨hlt, htake, hname⟩ := hother.stands
  have hlength := hplaces _ hlt hname (htake.symm ▸ hw)
  rw [← htake, hlength, h.stands.2.1]

/-- The first place tells the digits. -/
theorem FirstAssigned.digits_eq {other : List Char} (h : FirstAssigned text before digits)
    (h' : FirstAssigned text other ds) : digits = ds := by
  have hlength := Nat.le_antisymm (h.2 other ds h'.1) (h'.2 before digits h.1)
  obtain ⟨behind, htext, hdigits⟩ := h.1
  obtain ⟨_, htext', _⟩ := id h'.1
  obtain ⟨rfl, _⟩ := List.append_inj (htext.symm.trans htext') hlength
  exact h.1.unique h'.1

theorem assignedAt_cons : AssignedAt (c :: text) before digits ↔
    before = [] ∧ (afterMark? revisionName (c :: text)).bind assignedDigits? = some digits ∨
      ∃ rest, before = c :: rest ∧ AssignedAt text rest digits := by
  simp only [Option.bind_eq_some_iff, afterMark?_eq_some, assignedDigits?_eq_some]
  cases before with
  | nil =>
    constructor
    · intro h
      exact .inl ⟨rfl, h⟩
    · intro h
      rcases h with ⟨_, h⟩ | ⟨_, h, _⟩
      · exact h
      · cases h
  | cons b rest =>
    constructor
    · intro h
      obtain ⟨behind, htext, h⟩ := h
      obtain rfl := (List.cons.inj htext).1
      exact .inr ⟨rest, rfl, behind, (List.cons.inj htext).2, h⟩
    · intro h
      rcases h with ⟨h, _⟩ | ⟨_, h, behind, htext, hassigns⟩
      · cases h
      · cases h
        exact ⟨behind, congrArg (c :: ·) htext, hassigns⟩

theorem firstAssigned?_cons : firstAssigned? (c :: text) =
    ((afterMark? revisionName (c :: text)).bind assignedDigits?).or (firstAssigned? text) := by
  have hstep : (afterMark? "COMPILER_REVISION".toList (c :: text)).bind assignedDigits? =
      (afterMark? revisionName (c :: text)).bind assignedDigits? := rfl
  rw [firstAssigned?, hstep]
  generalize (afterMark? revisionName (c :: text)).bind assignedDigits? = found
  cases found with
  | none => rfl
  | some ds => rfl

/-- **The search finds the first place** where digits are assigned. -/
theorem firstAssigned?_eq_some : firstAssigned? text = some digits ↔ ∃ before, FirstAssigned text before digits := by
  induction text with
  | nil =>
    rw [firstAssigned?]
    refine iff_of_false (fun h => by cases h) fun h => ?_
    obtain ⟨before, h, _⟩ := h
    obtain ⟨behind, htext, _⟩ := h
    have hname := (List.append_eq_nil_iff.mp (List.append_eq_nil_iff.mp htext.symm).2).1
    exact absurd hname (by decide)
  | cons c text ih =>
    rw [firstAssigned?_cons]
    cases hhere : (afterMark? revisionName (c :: text)).bind assignedDigits? with
    | some ds =>
      -- nothing is before the first character, so this place is the first one
      have hfirst : AssignedAt (c :: text) [] ds := assignedAt_cons.mpr (.inl ⟨rfl, hhere⟩)
      rw [Option.some_or, Option.some.injEq]
      constructor
      · intro h
        exact ⟨[], h ▸ hfirst, fun _ _ _ => Nat.zero_le _⟩
      · intro h
        obtain ⟨before, h, hleast⟩ := h
        obtain rfl := List.eq_nil_of_length_eq_zero (Nat.le_zero.mp (hleast [] ds hfirst))
        exact hfirst.unique h
    | none =>
      have hlater {other ds : List Char} : AssignedAt (c :: text) other ds ↔
          ∃ rest, other = c :: rest ∧ AssignedAt text rest ds := by
        rw [assignedAt_cons, hhere]
        exact or_iff_right fun h => by cases h.2
      rw [Option.none_or, ih]
      constructor
      · intro h
        obtain ⟨before, h, hleast⟩ := h
        refine ⟨c :: before, hlater.mpr ⟨before, rfl, h⟩, fun other ds hother => ?_⟩
        obtain ⟨rest, rfl, hrest⟩ := hlater.mp hother
        exact Nat.succ_le_succ (hleast rest ds hrest)
      · intro h
        obtain ⟨before, h, hleast⟩ := h
        obtain ⟨rest, rfl, hrest⟩ := hlater.mp h
        refine ⟨rest, hrest, fun other ds hother => ?_⟩
        exact Nat.le_of_succ_le_succ (hleast (c :: other) ds (hlater.mpr ⟨other, rfl, hother⟩))

end Assignments

/-! ## 2. Numbers -/

/-- The digits from `0` to `9` spell the number. -/
def Spells (digits : List Char) (number : Nat) : Prop :=
  (∀ c ∈ digits, c.isDigit = true) ∧ Nat.ofDigitChars 10 digits 0 = number

instance (digits : List Char) (number : Nat) : Decidable (Spells digits number) :=
  decidable_of_iff (digits.all Char.isDigit = true ∧ Nat.ofDigitChars 10 digits 0 = number)
    (and_congr_left fun _ => List.all_eq_true)

/-- The number has thirty-two bits, or the digits count as none. -/
theorem revisionOf?_eq_some {digits : List Char} {number : Nat} :
    revisionOf? digits = some number ↔ Spells digits number ∧ number < UInt32.size := by
  have hvalue : digits.foldl (fun n c => 10 * n + (c.toNat - '0'.toNat)) 0 = Nat.ofDigitChars 10 digits 0 := rfl
  unfold revisionOf? Spells
  dsimp only
  rw [hvalue]
  constructor
  · intro h
    split at h
    · rename_i hnumber
      cases h
      exact ⟨⟨List.all_eq_true.mp hnumber.1, rfl⟩, hnumber.2⟩
    · cases h
  · intro h
    obtain ⟨⟨hdigits, rfl⟩, hlt⟩ := h
    exact if_pos ⟨List.all_eq_true.mpr hdigits, hlt⟩

/-- **The number that is declared** is the one that is assigned first. -/
theorem declaredRevision?_eq_some {text : String} {number : Nat} : declaredRevision? text = some number ↔
    (∃ before digits, FirstAssigned text.toList before digits ∧ Spells digits number) ∧ number < UInt32.size := by
  unfold declaredRevision?
  simp only [Option.bind_eq_some_iff, firstAssigned?_eq_some, revisionOf?_eq_some]
  constructor
  · intro h
    obtain ⟨digits, ⟨before, hfirst⟩, hspells, hlt⟩ := h
    exact ⟨⟨before, digits, hfirst, hspells⟩, hlt⟩
  · intro h
    obtain ⟨⟨before, digits, hfirst, hspells⟩, hlt⟩ := h
    exact ⟨digits, ⟨before, hfirst⟩, hspells, hlt⟩

/-! ## 3. Loads -/

/-- A load fails because the revisions differ. -/
def Mismatched (result : Except LoadError Loaded) : Prop :=
  ∃ compiler revision path, result = .error (.versionMismatch compiler revision path)

section Loads

open BuildM

variable {config : Config} {source runtime text : String} {template : Path} {build missed : Build} {error : LoadError}

/-- The check fails if and only if another revision is declared. -/
theorem checkRuntime_eq_error (hruntime : config.runtime = some runtime)
    (htext : build.tree.readText ⟨runtime⟩ = .ok text) :
    ((checkRuntime config).exec build).1 = .error error ↔ ∃ revision, declaredRevision? text = some revision ∧
      revision ≠ specRevision ∧ error = .versionMismatch specRevision revision runtime := by
  unfold checkRuntime
  rw [hruntime]
  dsimp only
  rw [exec_bind, exec_get]
  dsimp only
  rw [htext]
  dsimp only
  cases declaredRevision? text with
  | none =>
    refine iff_of_false (fun h => by cases h) fun h => ?_
    obtain ⟨_, h, _⟩ := h
    cases h
  | some revision =>
    dsimp only
    split
    · rename_i hne
      constructor
      · intro h
        cases h
        exact ⟨revision, rfl, hne, rfl⟩
      · intro h
        obtain ⟨_, h, _, rfl⟩ := h
        cases h
        rfl
    · rename_i heq
      refine iff_of_false (fun h => by cases h) fun h => ?_
      obtain ⟨_, h, hne, _⟩ := h
      cases h
      exact heq hne

namespace Job

variable {job : Job} {p later : Progress} {registry : Registry} {journal : Journal}

/-- No template is refused for the revision by its compiler. -/
theorem compile_error (h : (job.compile source p).1 = .error error) :
    ∃ fault, error = .templateSyntax job.name fault := by
  unfold compile at h
  split at h
  · cases h
  · dsimp only at h
    split at h
    · cases h
    · cases h
      exact ⟨_, rfl⟩

/-- A template that does not settle fails for another reason than the revision. -/
theorem settle_error (h : job.settle source registry journal = (.error error, later)) :
    ∀ compiler revision path, error ≠ .versionMismatch compiler revision path := by
  intro compiler revision path e
  subst e
  rw [settle] at h
  cases hrounds : job.rounds source { registry, journal } with
  | none =>
    rw [hrounds] at h
    cases h
  | some result =>
    rw [hrounds] at h
    obtain rfl : result = (.error (.versionMismatch compiler revision path), later) := h
    obtain ⟨q, _, hend⟩ := rounds_last hrounds
    cases hend with
    | failed round =>
      have ends := job.round_ends source q
      rw [round] at ends
      cases ends with
      | rejected hcompile =>
        obtain ⟨fault, e⟩ := compile_error hcompile
        cases e

end Job

/-- A module that cannot be stored fails for the store. -/
theorem storeModule_error {tree : FileTree} (h : (storeModule config template text tree).1 = .error error) :
    ∃ path reason, error = .cache path reason := by
  unfold storeModule at h
  split at h
  · cases h
  · rename_i dir _
    unfold ModuleStore.insert at h
    dsimp only at h
    split at h
    · cases h
      exact ⟨_, _, rfl⟩
    · split at h
      · cases h
        exact ⟨_, _, rfl⟩
      · cases h

/-- The revisions are compared before a template is compiled, and never again. -/
theorem compileTemplate_mismatched {compiler revision : Nat} {path : String} :
    ((compileTemplate config source template).exec build).1 = .error (.versionMismatch compiler revision path) ↔
      ((checkRuntime config).exec build).1 = .error (.versionMismatch compiler revision path) := by
  cases hcheck : ((checkRuntime config).exec build).1 with
  | error error =>
    unfold compileTemplate
    rw [exec_bind]
    generalize (checkRuntime config).exec build = check at hcheck ⊢
    obtain ⟨result, checked⟩ := check
    obtain rfl : result = .error error := hcheck
    exact Iff.of_eq (by rw [Except.error.injEq, Except.error.injEq])
  | ok =>
    refine iff_of_false (fun h => ?_) fun h => by cases h
    obtain ⟨seeded, _, ends⟩ := compileTemplate_compiles config template build source hcheck
    generalize (compileTemplate config source template).exec build = result at h ends
    cases ends with
    | failed settle =>
      cases h
      exact Job.settle_error settle _ _ _ rfl
    | emitted => cases h
    | unstored _ store =>
      cases h
      obtain ⟨_, _, e⟩ := storeModule_error (congrArg Prod.fst store)
      cases e

variable (hruntime : config.runtime = some runtime) (htext : build.tree.readText ⟨runtime⟩ = .ok text)
  (hmissed : (storedModule? config template).exec build = (.ok none, missed))

include hruntime htext hmissed

/-- **A load without a stored module fails for the revision** if and only if another one is declared. -/
theorem load_mismatched {compiler revision : Nat} {path : String} :
    ((load config source template).exec build).1 = .error (.versionMismatch compiler revision path) ↔
      declaredRevision? text = some revision ∧ revision ≠ specRevision ∧ compiler = specRevision ∧
        path = runtime := by
  have htold := (storedModule?_spec config template build).1
  rw [hmissed] at htold
  rw [load_of_missed config template build source hmissed, compileTemplate_mismatched,
    checkRuntime_eq_error hruntime (htold.tree.symm ▸ htext)]
  constructor
  · intro h
    obtain ⟨declared, hdeclared, hne, e⟩ := h
    cases e
    exact ⟨hdeclared, hne, rfl, rfl⟩
  · intro h
    obtain ⟨hdeclared, hne, rfl, rfl⟩ := h
    exact ⟨revision, hdeclared, hne, rfl⟩

/-- **Which runtimes are refused**: those where the number that is assigned first, to the name of the revision or
    to a longer name that ends so, has thirty-two bits and is another one. So where digits are assigned to the
    whole name once, and to no longer name before, their number is compared, unless it is too large. -/
theorem load_revision :
    (∀ compiler revision path,
      ((load config source template).exec build).1 = .error (.versionMismatch compiler revision path) ↔
        compiler = specRevision ∧ path = runtime ∧ revision ≠ specRevision ∧ revision < UInt32.size ∧
          ∃ before digits, FirstAssigned text.toList before digits ∧ Spells digits revision) ∧
    ∀ before digits number, AssignedOnce text.toList before digits → Spells digits number →
      (∀ other ds, AssignedAt text.toList other ds → isWhole other = false → before.length ≤ other.length) →
        (Mismatched ((load config source template).exec build).1 ↔
          number ≠ specRevision ∧ number < UInt32.size) := by
  refine ⟨fun compiler revision path => ?_, fun before digits number honce hspells hlonger => ?_⟩
  · rw [load_mismatched hruntime htext hmissed, declaredRevision?_eq_some]
    constructor
    · intro h
      obtain ⟨⟨hfirst, hlt⟩, hne, hcompiler, hpath⟩ := h
      exact ⟨hcompiler, hpath, hne, hlt, hfirst⟩
    · intro h
      obtain ⟨hcompiler, hpath, hne, hlt, hfirst⟩ := h
      exact ⟨⟨hfirst, hlt⟩, hne, hcompiler, hpath⟩
  · -- of the other places those of the whole name are this one, and those of longer names come later
    have hfirst : FirstAssigned text.toList before digits := by
      refine ⟨honce.assigned, fun other ds hother => ?_⟩
      cases hwhole : isWhole other with
      | true => rw [honce.once other ds hother hwhole]
      | false => exact hlonger other ds hother hwhole
    have hdeclared {revision : Nat} : declaredRevision? text = some revision ↔
        number = revision ∧ number < UInt32.size := by
      rw [declaredRevision?_eq_some]
      constructor
      · intro h
        obtain ⟨⟨other, ds, hother, hds⟩, hlt⟩ := h
        obtain rfl := hfirst.digits_eq hother
        obtain rfl := hspells.2.symm.trans hds.2
        exact ⟨rfl, hlt⟩
      · intro h
        obtain ⟨rfl, hlt⟩ := h
        exact ⟨⟨before, digits, hfirst, hspells⟩, hlt⟩
    simp only [Mismatched, load_mismatched hruntime htext hmissed, hdeclared]
    constructor
    · intro h
      obtain ⟨_, _, _, ⟨rfl, hlt⟩, hne, _⟩ := h
      exact ⟨hne, hlt⟩
    · intro h
      exact ⟨_, _, _, ⟨rfl, h.2⟩, h.1, rfl, rfl⟩

end Loads

/-! ## 4. Runtimes -/

/-- The configuration that names a runtime. -/
def overridden : Config :=
  { runtime := some "r.js" }

/-- The files among which the runtime has the text. -/
def runtimeTree (text : String) : FileTree :=
  ({} : FileTree).plant ["r.js"] (.file (.ofText text) 0)

theorem readText_runtimeTree (text : String) : (runtimeTree text).readText ⟨"r.js"⟩ = .ok text := by
  have hentry : (runtimeTree text).entryAt? ["r.js"] = some (.file (.ofText text) 0) := by
    simp [runtimeTree, FileTree.plant, FileTree.entryAt?, FileTree.insertAt]
  refine FileTree.readText_eq_ok.mpr ⟨["r.js"], .ofText text, 0, ?_, hentry, FileTree.text?_ofText text⟩
  rfl

theorem missed_runtimeTree (text : String) : (storedModule? overridden ⟨"t.hbs"⟩).exec { tree := runtimeTree text } =
    (.ok none, { tree := runtimeTree text }) := rfl

/-- Digits between blanks and a semicolon are assigned. -/
theorem assigns_digits {digits : List Char} (hne : digits ≠ []) (h : digits.all isDigit = true) :
    Assigns digits (' ' :: '=' :: ' ' :: (digits ++ [';'])) :=
  ⟨[' '], [' '], [';'], rfl, List.forall_mem_singleton.mpr rfl, List.forall_mem_singleton.mpr rfl, hne,
    List.all_eq_true.mp h, fun c hc => by cases hc; rfl⟩

/-- A runtime that assigns the seventh revision to a member of its exports is refused. -/
theorem load_revision_exports :
    overridden.runtime = some "r.js" ∧
    AssignedOnce "exports.COMPILER_REVISION = 7;".toList "exports.".toList ['7'] ∧ Spells ['7'] 7 ∧
    Mismatched ((load overridden "x" ⟨"t.hbs"⟩).exec { tree := runtimeTree "exports.COMPILER_REVISION = 7;" }).1 := by
  have hassigned : AssignedAt "exports.COMPILER_REVISION = 7;".toList "exports.".toList ['7'] :=
    ⟨" = 7;".toList, rfl, assigns_digits (by decide) (by decide)⟩
  have honce := hassigned.once (by decide +kernel) (by decide +kernel)
  have hspells : Spells ['7'] 7 := by decide +kernel
  have hplaces : ∀ k < 30, revisionName <+: "exports.COMPILER_REVISION = 7;".toList.drop k → 8 ≤ k := by
    decide +kernel
  refine ⟨rfl, honce, hspells, ?_⟩
  refine ((load_revision rfl (readText_runtimeTree _) (missed_runtimeTree _)).2 _ _ _ honce hspells
    fun other ds h _ => ?_).mpr (by decide)
  obtain ⟨hlt, _, hname⟩ := h.stands
  exact hplaces _ hlt hname

/-- **The end of a longer name is taken for the name**: eight is assigned once to the whole name, and the runtime
    is refused. And a number of more than thirty-two bits is never another one. -/
theorem longer_name_refused :
    (AssignedOnce "LAST_COMPATIBLE_COMPILER_REVISION = 7; COMPILER_REVISION = 8;".toList
        "LAST_COMPATIBLE_COMPILER_REVISION = 7; ".toList ['8'] ∧ Spells ['8'] specRevision ∧
      Mismatched ((load overridden "x" ⟨"t.hbs"⟩).exec
        { tree := runtimeTree "LAST_COMPATIBLE_COMPILER_REVISION = 7; COMPILER_REVISION = 8;" }).1) ∧
    AssignedOnce "COMPILER_REVISION = 4294967304;".toList [] "4294967304".toList ∧
      Spells "4294967304".toList 4294967304 ∧ 4294967304 ≠ specRevision ∧
      ¬ Mismatched ((load overridden "x" ⟨"t.hbs"⟩).exec
        { tree := runtimeTree "COMPILER_REVISION = 4294967304;" }).1 := by
  have hlonger : AssignedAt "LAST_COMPATIBLE_COMPILER_REVISION = 7; COMPILER_REVISION = 8;".toList
      "LAST_COMPATIBLE_COMPILER_REVISION = 7; ".toList ['8'] :=
    ⟨" = 8;".toList, rfl, assigns_digits (by decide) (by decide)⟩
  have hlarge : AssignedAt "COMPILER_REVISION = 4294967304;".toList [] "4294967304".toList :=
    ⟨" = 4294967304;".toList, rfl, assigns_digits (by decide) (by decide)⟩
  have hseven : declaredRevision? "LAST_COMPATIBLE_COMPILER_REVISION = 7; COMPILER_REVISION = 8;" = some 7 := by
    decide +kernel
  have hnone : declaredRevision? "COMPILER_REVISION = 4294967304;" = none := by decide +kernel
  refine ⟨⟨hlonger.once (by decide +kernel) (by decide +kernel), by decide +kernel, ?_⟩,
    hlarge.once (by decide +kernel) (by decide +kernel), by decide +kernel, by decide, ?_⟩
  · exact ⟨_, _, _, (load_mismatched rfl (readText_runtimeTree _) (missed_runtimeTree _)).mpr
      ⟨hseven, by decide, rfl, rfl⟩⟩
  · intro h
    obtain ⟨_, _, _, h⟩ := h
    cases hnone.symm.trans ((load_mismatched rfl (readText_runtimeTree _) (missed_runtimeTree _)).mp h).1

end Stache
