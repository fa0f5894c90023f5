import Stache.Proofs.Symbol.Table

/-!
# The dependencies of a table

The dependencies are the files behind the partials and helpers that were found: every one of them is listed,
under one of its spellings, and no other file is.

* `mem_of_mem_eraseRepsBy`, `kept_eraseRepsBy` -- what is kept of a list when repetitions are dropped;
* `found_of_mem_dependencies`, `listed_of_found` -- what is listed.
-/

namespace Stache

/-! ## 1. Lists without repetitions -/

section Repetitions

variable {α : Type} {r : α → α → Bool} {x : α}

/-- What is kept was there. -/
theorem mem_of_mem_eraseRepsBy_loop {a : α} {as kept : List α}
    (h : x ∈ List.eraseRepsBy.loop r a as kept) : x = a ∨ x ∈ as ∨ x ∈ kept := by
  induction as generalizing a kept with
  | nil =>
    rw [List.eraseRepsBy.loop, List.mem_reverse, List.mem_cons] at h
    exact h.imp_right .inr
  | cons b as ih =>
    rw [List.eraseRepsBy.loop] at h
    split at h
    · exact (ih h).imp_right (.imp_left (List.mem_cons_of_mem b))
    · rw [List.mem_cons]
      rcases ih h with rfl | hm | hm
      · exact .inr (.inl (.inl rfl))
      · exact .inr (.inl (.inr hm))
      · rcases List.mem_cons.mp hm with rfl | hm
        · exact .inl rfl
        · exact .inr (.inr hm)

theorem mem_of_mem_eraseRepsBy {l : List α} (h : x ∈ l.eraseRepsBy r) : x ∈ l := by
  cases l with
  | nil => exact h
  | cons a as =>
    rcases mem_of_mem_eraseRepsBy_loop h with rfl | hm | hm
    · exact List.mem_cons_self
    · exact List.mem_cons_of_mem a hm
    · cases hm

/-- What was kept stays, and so does the element at hand. -/
theorem mem_eraseRepsBy_loop {a : α} {as kept : List α} (h : x = a ∨ x ∈ kept) :
    x ∈ List.eraseRepsBy.loop r a as kept := by
  induction as generalizing a kept with
  | nil =>
    rw [List.eraseRepsBy.loop, List.mem_reverse, List.mem_cons]
    exact h
  | cons b as ih =>
    rw [List.eraseRepsBy.loop]
    split
    · exact ih h
    · exact ih (.inr (List.mem_cons.mpr h))

/-- For what is dropped the element that it repeats is kept. -/
theorem kept_eraseRepsBy_loop {a : α} {as kept : List α} (h : x ∈ as) :
    ∃ y ∈ List.eraseRepsBy.loop r a as kept, y = x ∨ r y x = true := by
  induction as generalizing a kept with
  | nil => cases h
  | cons b as ih =>
    rw [List.eraseRepsBy.loop]
    split
    · rename_i hr
      rcases List.mem_cons.mp h with rfl | hm
      · exact ⟨a, mem_eraseRepsBy_loop (.inl rfl), .inr hr⟩
      · exact ih hm
    · rcases List.mem_cons.mp h with rfl | hm
      · exact ⟨x, mem_eraseRepsBy_loop (.inl rfl), .inl rfl⟩
      · exact ih hm

theorem kept_eraseRepsBy {l : List α} (h : x ∈ l) : ∃ y ∈ l.eraseRepsBy r, y = x ∨ r y x = true := by
  cases l with
  | nil => cases h
  | cons a as =>
    rcases List.mem_cons.mp h with rfl | hm
    · exact ⟨x, mem_eraseRepsBy_loop (.inl rfl), .inl rfl⟩
    · exact kept_eraseRepsBy_loop hm

end Repetitions

/-! ## 2. What is listed -/

theorem Records.mem_paths {records : Records} {path : Path} :
    path ∈ records.paths ↔ ∃ name, records.path? name = some path := by
  simp only [paths, path?, List.mem_filterMap, Prod.exists,
    Std.ExtTreeMap.mem_toList_iff_getElem?_eq_some, Option.bind_eq_some_iff]

namespace SymbolTable

variable {table : SymbolTable} {path : Path}

/-- The files behind the partials and helpers that were found. -/
theorem mem_paths : path ∈ table.partials.paths ++ table.helpers.paths ↔
    ∃ kind name, kind ≠ .ambiguous ∧ table.path? kind name = some path := by
  rw [List.mem_append, Records.mem_paths, Records.mem_paths]
  constructor
  · rintro (⟨name, h⟩ | ⟨name, h⟩)
    · exact ⟨.partialTemplate, name, nofun, h⟩
    · exact ⟨.helper, name, nofun, h⟩
  · rintro ⟨kind, name, hk, h⟩
    cases kind with
    | partialTemplate => exact .inl ⟨name, h⟩
    | helper => exact .inr ⟨name, h⟩
    | ambiguous => exact absurd rfl hk

/-- **Only files are listed that were found.** -/
theorem found_of_mem_dependencies (h : path ∈ table.dependencies) :
    ∃ kind name, kind ≠ .ambiguous ∧ table.path? kind name = some path := by
  rw [dependencies, List.mem_reverse] at h
  have hm := mem_of_mem_eraseRepsBy h
  rw [List.mem_reverse, List.mem_mergeSort] at hm
  exact mem_paths.mp hm

/-- **Every file that was found is listed**, under one of its spellings. -/
theorem listed_of_found {kind : SymbolKind} {name : String} (hk : kind ≠ .ambiguous)
    (h : table.path? kind name = some path) :
    ∃ listed ∈ table.dependencies, listed.components = path.components := by
  have hm := mem_paths.mpr ⟨kind, name, hk, h⟩
  rw [← @List.mem_mergeSort _ (fun a b => (Path.compare a b).isLE), ← List.mem_reverse] at hm
  obtain ⟨listed, hl, he⟩ := @kept_eraseRepsBy _ Path.sameComponents _ _ hm
  refine ⟨listed, List.mem_reverse.mpr hl, ?_⟩
  rcases he with rfl | he
  · rfl
  · exact eq_of_beq he

end SymbolTable

end Stache
