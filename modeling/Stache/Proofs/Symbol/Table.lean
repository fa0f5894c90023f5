import Stache.Symbol.Table
import Mathlib.Order.Defs.PartialOrder

/-!
# What the symbol table knows

One lookup, `SymbolTable.get?`, says all there is to say about a table. This file gives it for every
operation, and the order in which tables grow.

* `get?_register`, `get?_markResolved`, `get?_markUnresolved`, `get?_promote` -- the table after an
  operation, name by name;
* `mem_pending`, `pending_ordered` -- what waits to be searched, in strict order;
* `Advances` -- absent, pending, unresolved, resolved: what is known about a symbol moves along this
  line only, and a path stays;
* `t ≤ t'` -- every symbol of `t` advances to `t'`; all operations go upwards.
-/

namespace Stache

/-! ## 1. Resolutions -/

namespace Resolution

/-- The outcome of a search, as it is recorded. -/
def ofSearch : Option Path → Resolution
  | some path => .resolved path
  | none => .unresolved

/-- How much is known about a symbol. -/
def stage : Option Resolution → Nat
  | none => 0
  | some .pending => 1
  | some .unresolved => 2
  | some (.resolved _) => 3

@[simp] theorem missed_pending : missed .pending = ofSearch none := rfl

@[simp] theorem found_pending (path : Path) : found path .pending = ofSearch (some path) := rfl

end Resolution

/-- What is known about a symbol advances: it does not get less, and a path stays as it is. -/
structure Advances (before after : Option Resolution) : Prop where
  stage : Resolution.stage before ≤ Resolution.stage after
  path : ∀ path, before = some (.resolved path) → after = some (.resolved path)

namespace Advances

theorem refl (state : Option Resolution) : Advances state state :=
  ⟨Nat.le_refl _, fun _ h => h⟩

theorem trans {a b c : Option Resolution} (h : Advances a b) (h' : Advances b c) : Advances a c :=
  ⟨Nat.le_trans h.stage h'.stage, fun path e => h'.path path (h.path path e)⟩

theorem ofRegister (state : Option Resolution) : Advances state (some (state.getD .pending)) := by
  rcases state with _ | _ | _ | path <;> constructor <;> simp [Resolution.stage]

theorem ofFound (state : Option Resolution) (path : Path) :
    Advances state (some ((state.getD .pending).found path)) := by
  rcases state with _ | _ | _ | earlier <;> constructor <;> simp [Resolution.stage, Resolution.found]

theorem ofMissed (state : Option Resolution) : Advances state (state.map .missed) := by
  rcases state with _ | _ | _ | path <;> constructor <;> simp [Resolution.stage, Resolution.missed]

end Advances

/-! ## 2. The table after an operation -/

namespace SymbolTable

variable (table : SymbolTable) (kind other : SymbolKind) (name n : String)

theorem get?_setRecords (records : Records) :
    (table.setRecords kind records).get? other n =
      if kind = other then records[n]? else table.get? other n := by
  cases kind <;> cases other <;> rfl

@[grind =] theorem get?_register :
    (table.register kind name).get? other n =
      if kind = other ∧ name = n then some ((table.get? kind name).getD .pending)
      else table.get? other n := by
  rw [register, get?_setRecords, Records.register, Std.ExtTreeMap.getElem?_insertIfNew]
  simp only [Std.LawfulEqCmp.compare_eq_iff_eq, get?]
  by_cases hk : kind = other <;> by_cases hn : name = n <;> simp [hk, hn]
  cases h : (table.records other)[n]? <;> simp [Std.ExtTreeMap.mem_iff_isSome_getElem?, h]

@[grind =] theorem get?_markResolved (path : Path) :
    (table.markResolved kind name path).get? other n =
      if kind = other ∧ name = n then some (((table.get? kind name).getD .pending).found path)
      else table.get? other n := by
  rw [markResolved, get?_setRecords, Records.markResolved, Std.ExtTreeMap.getElem?_insert]
  simp only [Std.LawfulEqCmp.compare_eq_iff_eq, Std.ExtTreeMap.getD_eq_getD_getElem?, get?]
  by_cases hk : kind = other <;> by_cases hn : name = n <;> simp [hk, hn]

@[grind =] theorem get?_markUnresolved :
    (table.markUnresolved kind name).get? other n =
      if kind = other ∧ name = n then (table.get? kind name).map .missed
      else table.get? other n := by
  rw [markUnresolved, get?_setRecords, Records.markUnresolved, Std.ExtTreeMap.getElem?_modify]
  simp only [Std.LawfulEqCmp.compare_eq_iff_eq, get?]
  by_cases hk : kind = other <;> by_cases hn : name = n <;> simp [hk, hn]

theorem get?_promote (path : Path) :
    (table.promote name path).get? other n =
      if other ≠ .partialTemplate ∧ name = n then
        some (((table.get? other name).getD .pending).found path)
      else table.get? other n := by
  simp only [promote, get?_markResolved]
  cases other <;> by_cases hn : name = n <;> simp [hn]

theorem path?_eq : table.path? kind name = (table.get? kind name).bind Resolution.path? := rfl

theorem isAttempted_eq :
    table.isAttempted kind name = ((table.get? kind name).map Resolution.attempted).getD false := rfl

/-- Two tables that know the same about every name are the same table. -/
theorem ext_get? {t t' : SymbolTable} (h : ∀ kind name, t.get? kind name = t'.get? kind name) :
    t = t' := by
  obtain ⟨partials, helpers, ambiguous⟩ := t
  obtain ⟨partials', helpers', ambiguous'⟩ := t'
  congr 1
  · exact Std.ExtTreeMap.ext_getElem? (h .partialTemplate)
  · exact Std.ExtTreeMap.ext_getElem? (h .helper)
  · exact Std.ExtTreeMap.ext_getElem? (h .ambiguous)

variable {table kind name} in
theorem path?_eq_some_iff {path : Path} :
    table.path? kind name = some path ↔ table.get? kind name = some (.resolved path) := by
  rw [path?_eq]
  rcases table.get? kind name with _ | _ | _ | p <;> simp [Resolution.path?]

variable {table kind name} in
theorem isAttempted_iff :
    table.isAttempted kind name = true ↔ 2 ≤ Resolution.stage (table.get? kind name) := by
  rw [isAttempted_eq]
  rcases table.get? kind name with _ | _ | _ | p <;> simp [Resolution.attempted, Resolution.stage]

variable {table kind name} in
/-- A name that was found was searched. -/
theorem isAttempted_of_isSome_path? (h : (table.path? kind name).isSome = true) :
    table.isAttempted kind name = true := by
  obtain ⟨path, hp⟩ := Option.isSome_iff_exists.mp h
  rw [isAttempted_eq, path?_eq_some_iff.mp hp]
  rfl

@[simp] theorem get?_empty : ({} : SymbolTable).get? kind name = none := by
  cases kind <;> exact Std.ExtTreeMap.getElem?_empty

variable {table kind name} in
/-- A name that is recorded is not recorded anew. -/
theorem register_eq_self (h : (table.get? kind name).isSome = true) :
    table.register kind name = table := by
  apply ext_get?
  intro other n
  rw [get?_register]
  split
  · rename_i e
    obtain ⟨rfl, rfl⟩ := e
    obtain ⟨state, hs⟩ := Option.isSome_iff_exists.mp h
    simp [hs]
  · rfl

theorem path?_register : (table.register kind name).path? other n = table.path? other n := by
  rw [path?_eq, path?_eq, get?_register]
  split
  · rename_i e
    obtain ⟨rfl, rfl⟩ := e
    cases table.get? kind name <;> rfl
  · rfl

variable {table kind name} in
/-- A path is not replaced. -/
theorem markResolved_eq_self {path : Path} (h : table.path? kind name = some path) (later : Path) :
    table.markResolved kind name later = table := by
  apply ext_get?
  intro other n
  rw [get?_markResolved]
  split
  · rename_i e
    obtain ⟨rfl, rfl⟩ := e
    simp [path?_eq_some_iff.mp h, Resolution.found]
  · rfl

variable {table kind name} in
/-- A name without a path that is now found has the new path. -/
theorem get?_markResolved_self (h : table.path? kind name = none) (path : Path) :
    (table.markResolved kind name path).get? kind name = some (.resolved path) := by
  rw [get?_markResolved, if_pos ⟨rfl, rfl⟩]
  rw [path?_eq] at h
  revert h
  rcases table.get? kind name with _ | _ | _ | p <;> simp [Resolution.found, Resolution.path?]

/-! ## 3. What waits to be searched -/

variable {table kind name} in
@[simp] theorem mem_pending : name ∈ table.pending kind ↔ table.get? kind name = some .pending := by
  simp only [pending, Records.pending, List.mem_filterMap, Prod.exists,
    Std.ExtTreeMap.mem_toList_iff_getElem?_eq_some, get?]
  constructor
  · rintro ⟨m, state, h, e⟩
    split at e
    · cases e
      simp_all
    · cases e
  · intro h
    exact ⟨name, .pending, h, by simp⟩

theorem pending_ordered : (table.pending kind).Pairwise (· < ·) := by
  refine List.Pairwise.filterMap _ ?_ (Std.ExtTreeMap.ordered_keys_toList)
  rintro ⟨m, state⟩ ⟨m', state'⟩ h a ha b hb
  simp only [Option.ite_none_right_eq_some, Option.some.injEq] at ha hb
  obtain ⟨_, rfl⟩ := ha
  obtain ⟨_, rfl⟩ := hb
  exact compareOfLessAndEq_eq_lt.mp h

theorem pending_nodup : (table.pending kind).Nodup := by
  apply (table.pending_ordered kind).imp
  intro a b hab he
  subst he
  exact String.lt_irrefl a hab

/-! ## 4. Growth -/

/-- A table grows: each of its symbols advances. -/
instance : Preorder SymbolTable where
  le t t' := ∀ kind name, Advances (t.get? kind name) (t'.get? kind name)
  le_refl t kind name := .refl _
  le_trans _ _ _ h h' kind name := (h kind name).trans (h' kind name)

theorem le_register : table ≤ table.register kind name := by
  intro other n
  rw [get?_register]
  split
  · rename_i h
    obtain ⟨rfl, rfl⟩ := h
    exact .ofRegister _
  · exact .refl _

theorem le_markResolved (path : Path) : table ≤ table.markResolved kind name path := by
  intro other n
  rw [get?_markResolved]
  split
  · rename_i h
    obtain ⟨rfl, rfl⟩ := h
    exact .ofFound _ path
  · exact .refl _

theorem le_markUnresolved : table ≤ table.markUnresolved kind name := by
  intro other n
  rw [get?_markUnresolved]
  split
  · rename_i h
    obtain ⟨rfl, rfl⟩ := h
    exact .ofMissed _
  · exact .refl _

theorem le_promote (path : Path) : table ≤ table.promote name path :=
  le_trans (table.le_markResolved .ambiguous name path) (le_markResolved _ .helper name path)

/-- Steps that each go upwards go upwards. -/
theorem le_foldl {σ α : Type} (view : σ → SymbolTable) {step : σ → α → σ}
    (h : ∀ s a, view s ≤ view (step s a)) (as : List α) (s : σ) : view s ≤ view (as.foldl step s) := by
  induction as generalizing s with
  | nil => exact le_refl (view s)
  | cons a as ih => exact le_trans (h s a) (ih (step s a))

variable {table kind name}

theorem isAttempted_of_le {t' : SymbolTable} (h : table ≤ t')
    (ha : table.isAttempted kind name = true) : t'.isAttempted kind name = true := by
  rw [isAttempted_iff] at ha ⊢
  exact Nat.le_trans ha (h kind name).stage

/-- A name that is pending was searched neither now nor before. -/
theorem not_isAttempted_of_pending {t' : SymbolTable} (h : table ≤ t')
    (hp : name ∈ t'.pending kind) : table.isAttempted kind name = false := by
  rw [Bool.eq_false_iff]
  intro ha
  have hl := isAttempted_of_le h ha
  rw [isAttempted_eq, mem_pending.mp hp] at hl
  cases hl

/-- A name that was searched is recorded. -/
theorem isSome_of_isAttempted (h : table.isAttempted kind name = true) :
    (table.get? kind name).isSome = true := by
  rw [isAttempted_eq] at h
  cases hg : table.get? kind name with
  | none =>
    rw [hg] at h
    cases h
  | some state => rfl

/-- A name that is recorded stays recorded. -/
theorem isSome_of_le {t' : SymbolTable} (h : table ≤ t')
    (hs : (table.get? kind name).isSome = true) : (t'.get? kind name).isSome = true := by
  have := (h kind name).stage
  revert hs this
  rcases table.get? kind name with _ | _ | _ | p <;> rcases t'.get? kind name with _ | _ <;>
    simp [Resolution.stage]

end SymbolTable

end Stache
