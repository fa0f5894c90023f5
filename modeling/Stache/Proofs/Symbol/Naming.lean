import Stache.Proofs.Symbol.Table
import Stache.Symbol.Naming

/-!
# What an answer does to the table

Whoever answers a reference writes down what was asked. The two sides of an answer are taken apart here:

* `SymbolTable.note` -- the table with a reference written down, and `get?_note`, which says all that it
  does: the entry of the reference becomes what the registry makes of it, every other entry stays;
* `SymbolTable.codeOf` -- the code for a reference that can be read off a table without writing anything;
* `answer_eq` -- an answer notes the reference and then reads the code off the table it has made;
* `SymbolTable.noteAll` -- the notes of a whole pass, which come down to the set of the entries;
* `codeOf_noteAll` -- the code that was read off once stays the code for the rest of the pass.
-/

namespace Stache

/-! ## 1. Entries -/

/-- The entry that a reference is written down under. -/
def Reference.symbol? (registry : Registry) : Reference → Option (SymbolKind × String)
  | .symbol .partialTemplate _ name =>
    if isProvidedPartial name then none else some (.partialTemplate, name)
  | .symbol .helper _ name => some (.helper, name)
  | .symbol .context _ name => if name ∈ registry.known then some (.ambiguous, name) else none
  | .symbol .data _ _ => none
  | .literal _ => none
  | .chunk _ => none

/-- The entry depends on the names that are known, and on nothing else of the registry. -/
theorem Reference.symbol?_congr {a b : Registry} (h : a.known = b.known) :
    Reference.symbol? a = Reference.symbol? b := by
  funext reference
  rcases reference with ⟨_ | _ | _ | _, base, name⟩ | value | text <;> simp only [symbol?, h]

/-- Partials and helpers have an entry whatever is known. -/
theorem Reference.symbol?_of_ne_ambiguous {a : Registry} {reference : Reference} {kind : SymbolKind}
    {n : String} (h : reference.symbol? a = some (kind, n)) (hk : kind ≠ .ambiguous) (b : Registry) :
    reference.symbol? b = some (kind, n) := by
  rcases reference with ⟨_ | _ | _ | _, base, name⟩ | value | text
  · exact h
  · exact h
  · simp only [symbol?, Option.ite_none_right_eq_some, Option.some.injEq, Prod.mk.injEq] at h
    exact absurd h.2.1.symm hk
  all_goals cases h

theorem Reference.eq_of_symbol?_ambiguous {a : Registry} {reference : Reference} {n : String}
    (h : reference.symbol? a = some (.ambiguous, n)) : ∃ base, reference = .symbol .context base n := by
  rcases reference with ⟨_ | _ | _ | _, base, name⟩ | value | text
  · simp [symbol?] at h
  · simp [symbol?] at h
  · simp only [symbol?, Option.ite_none_right_eq_some, Option.some.injEq, Prod.mk.injEq] at h
    obtain ⟨_, _, rfl⟩ := h
    exact ⟨base, rfl⟩
  all_goals cases h

/-- Only a member with the name of a known helper is ambiguous. -/
theorem Reference.symbol?_ambiguous {a : Registry} {reference : Reference} {n : String}
    (h : reference.symbol? a = some (.ambiguous, n)) :
    n ∈ a.known ∧ ∀ b : Registry, n ∈ b.known → reference.symbol? b = some (.ambiguous, n) := by
  obtain ⟨base, rfl⟩ := eq_of_symbol?_ambiguous h
  rw [symbol?, Option.ite_none_right_eq_some] at h
  exact ⟨h.1, fun b hb => if_pos hb⟩

theorem Reference.eq_of_symbol?_helper {a : Registry} {reference : Reference} {n : String}
    (h : reference.symbol? a = some (.helper, n)) : ∃ base, reference = .symbol .helper base n := by
  rcases reference with ⟨_ | _ | _ | _, base, name⟩ | value | text
  · simp [symbol?] at h
  · cases h
    exact ⟨base, rfl⟩
  · simp [symbol?] at h
  all_goals cases h

theorem Reference.eq_of_symbol?_partial {a : Registry} {reference : Reference} {n : String}
    (h : reference.symbol? a = some (.partialTemplate, n)) :
    ∃ base, reference = .symbol .partialTemplate base n ∧ isProvidedPartial n = false := by
  rcases reference with ⟨_ | _ | _ | _, base, name⟩ | value | text
  · simp only [symbol?, Option.ite_none_left_eq_some, Bool.not_eq_true, Option.some.injEq,
      Prod.mk.injEq] at h
    obtain ⟨hn, _, rfl⟩ := h
    exact ⟨base, rfl, hn⟩
  · simp [symbol?] at h
  · simp [symbol?] at h
  all_goals cases h

/-- What is known about a symbol once it was written down: a helper that the registry has found is found,
    any other symbol is pending unless more was known before. -/
def Registry.seen (registry : Registry) (kind : SymbolKind) (name : String)
    (state : Option Resolution) : Resolution :=
  match kind, registry.path? name with
  | .helper, some path => (state.getD .pending).found path
  | _, _ => state.getD .pending

namespace Registry

variable (registry : Registry) (kind : SymbolKind) (name : String)

/-- Writing a symbol down again changes nothing. -/
@[simp] theorem seen_seen (state : Option Resolution) :
    registry.seen kind name (some (registry.seen kind name state)) =
      registry.seen kind name state := by
  cases kind <;> cases hr : registry.path? name <;> simp only [seen, hr] <;> try rfl
  rcases state with _ | _ | _ | path <;> rfl

/-- Only what is not known yet is pending once it was written down. -/
theorem seen_eq_pending {kind : SymbolKind} {state : Option Resolution}
    (h : registry.seen kind name state = .pending) : state = none ∨ state = some .pending := by
  rcases state with _ | _ | _ | path
  · exact .inl rfl
  · exact .inr rfl
  all_goals cases kind <;> cases hr : registry.path? name <;> simp [seen, hr, Resolution.found] at h

theorem advances_seen (state : Option Resolution) :
    Advances state (some (registry.seen kind name state)) := by
  cases kind <;> cases hr : registry.path? name <;> simp only [seen, hr] <;>
    first
    | exact .ofRegister state
    | exact .ofFound state _

/-- A symbol that was written down once stays as the registry sees it while it advances. -/
theorem seen_of_advances {state later : Option Resolution}
    (h : Advances (some (registry.seen kind name state)) later) :
    later = some (registry.seen kind name later) := by
  obtain ⟨hs, hp⟩ := h
  cases kind <;> cases hr : registry.path? name <;> simp only [seen, hr] at hs hp ⊢ <;>
    rcases state with _ | _ | _ | path <;> rcases later with _ | _ | _ | path' <;>
    simp_all [Resolution.stage, Resolution.found]

end Registry

/-! ## 2. Noting and reading -/

namespace SymbolTable

/-- The table with a reference written down. -/
def note (registry : Registry) (table : SymbolTable) (reference : Reference) : SymbolTable :=
  (answer registry (fun _ => false) reference table).2

/-- The code that a table has for a reference. Partials and helpers that were found are loaded, provided
    partials excepted; texts that match are loaded; nothing else is replaced. -/
def codeOf (table : SymbolTable) (inline : String → Bool) : Reference → Option String
  | .symbol .partialTemplate _ name =>
    if isProvidedPartial name then none else (table.path? .partialTemplate name).map loadPath
  | .symbol .helper _ name => (table.path? .helper name).map loadHelper
  | .symbol .context _ _ => none
  | .symbol .data _ _ => none
  | .literal value => inlineLiteral inline value
  | .chunk text => inlineChunk inline text

variable (registry : Registry) (table : SymbolTable) (base : Base) (name : String)

theorem note_partial :
    table.note registry (.symbol .partialTemplate base name) =
      if isProvidedPartial name then table else table.register .partialTemplate name := by
  simp only [note, answer, answerSymbol, answerPartial]
  split
  · rfl
  · cases hp : table.path? .partialTemplate name with
    | none => rfl
    | some path => exact (register_eq_self (by rw [path?_eq_some_iff.mp hp]; rfl)).symm

theorem note_helper :
    table.note registry (.symbol .helper base name) =
      match registry.path? name with
      | some path => table.markResolved .helper name path
      | none => table.register .helper name := by
  simp only [note, answer, answerSymbol, answerHelper]
  cases hp : table.path? .helper name with
  | none => cases registry.path? name <;> rfl
  | some path =>
    cases registry.path? name with
    | none => exact (register_eq_self (by rw [path?_eq_some_iff.mp hp]; rfl)).symm
    | some later => exact (markResolved_eq_self hp later).symm

/-- **The table after a note**: the entry of the reference is what the registry sees in it. -/
theorem get?_note (reference : Reference) (kind : SymbolKind) (n : String) :
    (table.note registry reference).get? kind n =
      if reference.symbol? registry = some (kind, n) then
        some (registry.seen kind n (table.get? kind n))
      else table.get? kind n := by
  rcases reference with ⟨_ | _ | _ | _, base, name⟩ | value | text
  · rw [note_partial]
    simp only [Reference.symbol?]
    split
    · simp
    · simp only [get?_register, Option.some.injEq, Prod.mk.injEq]
      split
      · rename_i e
        obtain ⟨rfl, rfl⟩ := e
        rfl
      · rfl
  · rw [note_helper]
    simp only [Reference.symbol?, Option.some.injEq, Prod.mk.injEq]
    by_cases e : SymbolKind.helper = kind ∧ name = n
    · obtain ⟨rfl, rfl⟩ := e
      cases hr : registry.path? name <;>
        simp [Registry.seen, hr, get?_register, get?_markResolved]
    · cases registry.path? name <;> simp [get?_register, get?_markResolved, e]
  · simp only [note, answer, answerSymbol, answerMember, Reference.symbol?]
    split
    · simp only [get?_register, Option.some.injEq, Prod.mk.injEq]
      split
      · rename_i e
        obtain ⟨rfl, rfl⟩ := e
        rfl
      · rfl
    · simp
  · rfl
  · rfl
  · rfl

/-- Tables that agree on the entry of a reference have the same code for it. -/
theorem codeOf_congr (registry : Registry) {a b : SymbolTable} {reference : Reference}
    (h : ∀ kind n, reference.symbol? registry = some (kind, n) → a.get? kind n = b.get? kind n)
    (inline : String → Bool) : a.codeOf inline reference = b.codeOf inline reference := by
  rcases reference with ⟨_ | _ | _ | _, base, name⟩ | value | text
  · simp only [codeOf]
    split
    · rfl
    · rename_i hd
      rw [path?_eq, path?_eq, h .partialTemplate name (if_neg hd)]
  · simp only [codeOf]
    rw [path?_eq, path?_eq, h .helper name rfl]
  all_goals rfl

/-- Tables with the same paths have the same code for every reference. -/
theorem codeOf_congr_path {a b : SymbolTable} (h : ∀ kind n, a.path? kind n = b.path? kind n) :
    a.codeOf = b.codeOf := by
  funext inline reference
  rcases reference with ⟨_ | _ | _ | _, base, name⟩ | value | text <;> simp only [codeOf, h]

/-- **An answer notes the reference and reads the code off the table that it leaves.** -/
theorem answer_eq (inline : String → Bool) (reference : Reference) :
    answer registry inline reference table =
      ((table.note registry reference).codeOf inline reference, table.note registry reference) := by
  rcases reference with ⟨_ | _ | _ | _, base, name⟩ | value | text
  · rw [note_partial]
    simp only [answer, answerSymbol, answerPartial, codeOf]
    split
    · rfl
    · rw [path?_register]
      cases hp : table.path? .partialTemplate name with
      | none => rfl
      | some path => rw [register_eq_self (by rw [path?_eq_some_iff.mp hp]; rfl)]; rfl
  · rw [note_helper]
    simp only [answer, answerSymbol, answerHelper, codeOf]
    cases hp : table.path? .helper name with
    | none =>
      cases registry.path? name with
      | none => simp [path?_register, hp]
      | some path => simp [path?_eq_some_iff.mpr (get?_markResolved_self hp path)]
    | some path =>
      cases registry.path? name with
      | none =>
        have hr : table.register .helper name = table :=
          register_eq_self (by rw [path?_eq_some_iff.mp hp]; rfl)
        simp [hr, hp]
      | some later => simp [markResolved_eq_self hp, hp]
  all_goals rfl

/-! ## 3. The notes of a pass -/

/-- The table with all references of a pass written down. -/
def noteAll (registry : Registry) (table : SymbolTable) (references : List Reference) : SymbolTable :=
  references.foldl (note registry) table

/-- **The table after a pass** depends on the entries of its references as a set. -/
theorem get?_noteAll (references : List Reference) (kind : SymbolKind) (n : String) :
    (table.noteAll registry references).get? kind n =
      if (kind, n) ∈ references.filterMap (Reference.symbol? registry) then
        some (registry.seen kind n (table.get? kind n))
      else table.get? kind n := by
  induction references generalizing table with
  | nil => simp [noteAll]
  | cons reference references ih =>
    rw [noteAll, List.foldl_cons, ← noteAll, ih, get?_note]
    cases he : reference.symbol? registry with
    | none => simp [List.filterMap_cons_none he]
    | some entry =>
      rw [List.filterMap_cons_some he]
      by_cases h : entry = (kind, n)
      · simp [h]
      · have h' : (kind, n) ≠ entry := fun e => h e.symm
        simp [h, h']

theorem le_noteAll (references : List Reference) : table ≤ table.noteAll registry references := by
  intro kind n
  rw [get?_noteAll]
  split
  · exact registry.advances_seen kind n _
  · exact .refl _

/-- **A reference that was noted needs no other note**, however much the table has grown. -/
theorem note_eq_self_of_le {registry : Registry} {table later : SymbolTable}
    {references : List Reference} {reference : Reference} (hm : reference ∈ references)
    (h : table.noteAll registry references ≤ later) : later.note registry reference = later := by
  apply ext_get?
  intro kind n
  rw [get?_note]
  split
  · rename_i he
    have hk := h kind n
    rw [get?_noteAll, if_pos (List.mem_filterMap.mpr ⟨reference, hm, he⟩)] at hk
    exact (registry.seen_of_advances kind n hk).symm
  · rfl

/-- **The code that a reference got stays its code for the rest of the pass.** -/
theorem codeOf_noteAll (references : List Reference) (inline : String → Bool)
    (reference : Reference) :
    ((table.note registry reference).noteAll registry references).codeOf inline reference =
      (table.note registry reference).codeOf inline reference := by
  apply codeOf_congr registry
  intro kind n he
  rw [get?_noteAll, get?_note, if_pos he, Registry.seen_seen, ite_self]

end SymbolTable

end Stache
