import Mathlib.Data.Prod.Basic
import Mathlib.Tactic.Choose

/-!
# Schedules

A search takes one thing after the other. Where each of them stands is told by a key, such as the number of
a request and that of a directory, and the order of the keys is the order in which they are taken. The
first thing of a kind is the one with the least key then, however the lists are nested.

* `Schedule` -- a list of what stands at keys, each once, in their order;
* `Schedule.flatMap` -- **the keys of nested lists are compared from the outer list to the inner one**;
* `Schedule.split_iff` -- what stands before a thing in the list is what has an earlier key;
* `Schedule.upTo` -- the same list up to the first thing that ends the search.
-/

namespace Stache

variable {ι κ α β : Type}

/-- The first number decides, and the second one between equal first ones. -/
abbrev Earlier : Nat × Nat → Nat × Nat → Prop :=
  Prod.Lex (· < ·) (· < ·)

/-- A list of what stands at keys, each once, in the order of the keys. -/
def Schedule (before : ι → ι → Prop) (stands : ι → α → Prop) (values : List α) : Prop :=
  ∃ entries : List (ι × α), entries.map Prod.snd = values ∧
    entries.Pairwise (fun a b => before a.1 b.1) ∧
    ∀ key value, (key, value) ∈ entries ↔ stands key value

/-- A list up to the first value that ends it, which is the last one. -/
def upTo (ends : α → Bool) : List α → List α
  | [] => []
  | value :: values => value :: if ends value then [] else upTo ends values

/-! ## 1. Sorted lists -/

section Sorted

variable {before : ι → ι → Prop} [Std.Asymm before] {entries : List (ι × α)}

/-- In a sorted list those with earlier keys stand in front of an entry, and no others. -/
theorem sorted_split_iff (h : entries.Pairwise fun a b => before a.1 b.1) {key : ι} {value : α}
    {p : α → Prop} :
    (∃ front back, entries = front ++ (key, value) :: back ∧ ∀ entry ∈ front, p entry.2) ↔
      (key, value) ∈ entries ∧ ∀ k v, before k key → (k, v) ∈ entries → p v := by
  constructor
  · intro hsplit
    obtain ⟨front, back, rfl, hp⟩ := hsplit
    refine ⟨List.mem_append_right _ List.mem_cons_self, fun k v hk hm => ?_⟩
    obtain ⟨_, hback, _⟩ := List.pairwise_append.mp h
    rcases List.mem_append.mp hm with hm | hm
    · exact hp _ hm
    · rcases List.mem_cons.mp hm with h | hm
      · cases h
        exact absurd hk (Std.Asymm.asymm _ _ hk)
      · exact absurd hk (Std.Asymm.asymm _ _ (List.rel_of_pairwise_cons hback hm))
  · intro hentry
    obtain ⟨hm, hp⟩ := hentry
    obtain ⟨front, back, rfl⟩ := List.append_of_mem hm
    refine ⟨front, back, rfl, fun entry hentry => ?_⟩
    exact hp entry.1 entry.2 ((List.pairwise_append.mp h).2.2 entry hentry _ List.mem_cons_self)
      (List.mem_append_left _ hentry)

end Sorted

/-! ## 2. Lists that end early -/

theorem mem_upTo {ends : α → Bool} {values : List α} {value : α} :
    value ∈ upTo ends values ↔
      ∃ front back, values = front ++ value :: back ∧ ∀ v ∈ front, ends v = false := by
  induction values with
  | nil => simp [upTo]
  | cons first values ih =>
    unfold upTo
    rw [List.mem_cons]
    constructor
    · intro hm
      rcases hm with rfl | hm
      · exact ⟨[], values, rfl, by simp⟩
      · split at hm
        · cases hm
        · rename_i hfirst
          obtain ⟨front, back, rfl, hends⟩ := ih.mp hm
          exact ⟨first :: front, back, rfl,
            List.forall_mem_cons.mpr ⟨Bool.eq_false_iff.mpr hfirst, hends⟩⟩
    · intro hsplit
      obtain ⟨front, back, h, hends⟩ := hsplit
      cases front with
      | nil => exact .inl (List.cons.inj h).1.symm
      | cons f front =>
        obtain ⟨rfl, rfl⟩ := List.cons.inj h
        obtain ⟨hf, hends⟩ := List.forall_mem_cons.mp hends
        rw [hf, if_neg Bool.false_ne_true]
        exact .inr (ih.mpr ⟨front, back, rfl, hends⟩)

theorem upTo_sublist (ends : α → Bool) (values : List α) : (upTo ends values).Sublist values := by
  induction values with
  | nil => exact List.Sublist.refl _
  | cons value values ih =>
    unfold upTo
    split
    · exact (List.nil_sublist values).cons_cons value
    · exact ih.cons_cons value

theorem map_upTo (ends : β → Bool) (f : α → β) (values : List α) :
    (upTo (fun value => ends (f value)) values).map f = upTo ends (values.map f) := by
  induction values with
  | nil => rfl
  | cons value values ih =>
    simp only [upTo, List.map_cons]
    split
    · rfl
    · rw [ih]

/-- A list in which nothing ends it goes on in what is appended to it. -/
theorem upTo_append_of_forall {ends : α → Bool} {front : List α} (h : ∀ v ∈ front, ends v = false)
    (back : List α) : upTo ends (front ++ back) = front ++ upTo ends back := by
  induction front with
  | nil => rfl
  | cons value front ih =>
    obtain ⟨hvalue, hfront⟩ := List.forall_mem_cons.mp h
    rw [List.cons_append, upTo, hvalue, if_neg Bool.false_ne_true, ih hfront]
    rfl

/-- Another list ends where it did. -/
theorem upTo_append_of_exists {ends : α → Bool} {front : List α} (h : ∃ v ∈ front, ends v = true)
    (back : List α) : upTo ends (front ++ back) = upTo ends front := by
  induction front with
  | nil => simp at h
  | cons value front ih =>
    rw [List.cons_append, upTo, upTo]
    by_cases hvalue : ends value = true
    · rw [if_pos hvalue, if_pos hvalue]
    · obtain ⟨v, hv, hends⟩ := h
      have hne : v ≠ value := fun e => hvalue (e ▸ hends)
      rw [if_neg hvalue, if_neg hvalue, ih ⟨v, (List.mem_cons.mp hv).resolve_left hne, hends⟩]

namespace Schedule

variable {before : ι → ι → Prop} {stands : ι → α → Prop} {values : List α}

/-! ## 3. Schedules -/

/-- Every list is one, by the numbers of its elements. -/
theorem ofList (values : List α) :
    Schedule (fun i j : Nat => i < j) (fun i value => values[i]? = some value) values := by
  refine ⟨values.zipIdx.map fun entry => (entry.2, entry.1), ?_, ?_, fun i value => ?_⟩
  · rw [List.map_map]
    exact List.zipIdx_map_fst 0 values
  · rw [List.pairwise_map]
    have h : ((values.zipIdx).map Prod.snd).Pairwise (· < ·) := by
      rw [List.zipIdx_map_snd]
      exact List.pairwise_lt_range' 1
    exact List.pairwise_map.mp h
  · simp only [← List.mk_mem_zipIdx_iff_getElem?, List.mem_map, Prod.mk.injEq]
    constructor
    · rintro ⟨_, hm, rfl, rfl⟩
      exact hm
    · exact fun hm => ⟨_, hm, rfl, rfl⟩

/-- So are the parts of a text, by the number of elements that stand before them. -/
theorem ofParts (parts : List (List α)) (hne : [] ∉ parts) :
    Schedule (fun i j : Nat => i < j)
      (fun start part => ∃ front back, parts = front ++ part :: back ∧ front.flatten.length = start) parts := by
  induction parts with
  | nil => exact ⟨[], rfl, .nil, by simp⟩
  | cons first parts ih =>
    rw [List.mem_cons, not_or] at hne
    obtain ⟨hfirst, hne⟩ := hne
    obtain ⟨entries, hv, hsorted, hm⟩ := ih hne
    refine ⟨(0, first) :: entries.map fun entry => (first.length + entry.1, entry.2), ?_, ?_, fun start part => ?_⟩
    · rw [List.map_cons, List.map_map]
      exact congrArg (first :: ·) hv
    · refine List.pairwise_cons.mpr ⟨fun entry he => ?_, List.pairwise_map.mpr (hsorted.imp (Nat.add_lt_add_left · _))⟩
      obtain ⟨_, _, rfl⟩ := List.mem_map.mp he
      exact Nat.add_pos_left (List.length_pos_iff.mpr (Ne.symm hfirst)) _
    · simp only [List.mem_cons, List.mem_map, Prod.mk.injEq, Prod.exists, hm]
      constructor
      · rintro (⟨rfl, rfl⟩ | ⟨_, _, ⟨front, back, rfl, rfl⟩, rfl, rfl⟩)
        · exact ⟨[], parts, rfl, rfl⟩
        · exact ⟨first :: front, back, rfl, List.length_append ..⟩
      · rintro ⟨front, back, hsplit, rfl⟩
        cases front with
        | nil =>
          obtain ⟨rfl, _⟩ := List.cons.inj hsplit
          exact .inl ⟨rfl, rfl⟩
        | cons _ front =>
          obtain ⟨rfl, hrest⟩ := List.cons.inj hsplit
          exact .inr ⟨_, part, ⟨front, back, hrest, rfl⟩, (List.length_append ..).symm, rfl⟩

theorem mem_iff (h : Schedule before stands values) {value : α} :
    value ∈ values ↔ ∃ key, stands key value := by
  obtain ⟨entries, rfl, _, hm⟩ := h
  simp only [List.mem_map, Prod.exists, exists_eq_right, hm]

theorem congr (h : Schedule before stands values) {other : ι → α → Prop}
    (hs : ∀ key value, stands key value ↔ other key value) : Schedule before other values := by
  obtain ⟨entries, hv, hsorted, hm⟩ := h
  exact ⟨entries, hv, hsorted, fun key value => (hm key value).trans (hs key value)⟩

theorem map (h : Schedule before stands values) (f : α → β) :
    Schedule before (fun key image => ∃ value, stands key value ∧ f value = image) (values.map f) := by
  obtain ⟨entries, rfl, hsorted, hm⟩ := h
  refine ⟨entries.map fun entry => (entry.1, f entry.2), ?_, List.pairwise_map.mpr hsorted,
    fun key image => ?_⟩
  · rw [List.map_map, List.map_map]
    rfl
  · simp only [List.mem_map, Prod.mk.injEq, Prod.exists, hm]
    constructor
    · rintro ⟨_, value, hs, rfl, rfl⟩
      exact ⟨value, hs, rfl⟩
    · rintro ⟨value, hs, rfl⟩
      exact ⟨key, value, hs, rfl, rfl⟩

/-- What is left out of a list leaves the keys of the others as they are. -/
theorem filterMap (h : Schedule before stands values) (f : α → Option β) :
    Schedule before (fun key image => ∃ value, stands key value ∧ f value = some image)
      (values.filterMap f) := by
  obtain ⟨entries, rfl, hsorted, hm⟩ := h
  refine ⟨entries.filterMap fun entry => (f entry.2).map fun image => (entry.1, image), ?_, ?_,
    fun key image => ?_⟩
  · rw [List.map_filterMap, List.filterMap_map]
    refine congrArg (List.filterMap · entries) (funext fun entry => ?_)
    rw [Option.map_map]
    exact Option.map_id'
  · rw [List.pairwise_filterMap]
    refine hsorted.imp fun {a b} hab => ?_
    simp only [Option.map_eq_some_iff]
    rintro _ ⟨_, _, rfl⟩ _ ⟨_, _, rfl⟩
    exact hab
  · simp only [List.mem_filterMap, Option.map_eq_some_iff, Prod.mk.injEq, Prod.exists]
    constructor
    · rintro ⟨_, value, hmem, _, himage, rfl, rfl⟩
      exact ⟨value, (hm _ _).mp hmem, himage⟩
    · rintro ⟨value, hs, himage⟩
      exact ⟨key, value, (hm _ _).mpr hs, image, himage, rfl, rfl⟩

theorem filter (h : Schedule before stands values) (p : α → Bool) :
    Schedule before (fun key value => stands key value ∧ p value = true) (values.filter p) := by
  rw [← List.filterMap_eq_filter]
  refine (h.filterMap _).congr fun key value => ?_
  simp only [Option.guard_eq_some_iff]
  constructor
  · rintro ⟨_, hs, rfl, hp⟩
    exact ⟨hs, hp⟩
  · exact fun hs => ⟨value, hs.1, rfl, hs.2⟩

/-- Backwards, the order of the keys is the other one. -/
theorem reverse (h : Schedule before stands values) :
    Schedule (fun a b => before b a) stands values.reverse := by
  obtain ⟨entries, rfl, hsorted, hm⟩ := h
  exact ⟨entries.reverse, List.map_reverse .., List.pairwise_reverse.mpr hsorted, fun key value => by
    rw [List.mem_reverse, hm]⟩

/-- **The keys of nested lists are compared from the outer list to the inner one.** -/
theorem flatMap (h : Schedule before stands values) {inner : α → List β} {within : κ → κ → Prop}
    {lies : α → κ → β → Prop} (hi : ∀ value, Schedule within (lies value) (inner value)) :
    Schedule (Prod.Lex before within)
      (fun key image => ∃ value, stands key.1 value ∧ lies value key.2 image)
      (values.flatMap inner) := by
  obtain ⟨entries, rfl, hsorted, hm⟩ := h
  choose parts hparts hinner hlies using hi
  obtain rfl : inner = fun value => (parts value).map Prod.snd := funext fun value => (hparts value).symm
  refine ⟨entries.flatMap fun entry => (parts entry.2).map fun part => ((entry.1, part.1), part.2),
    ?_, ?_, fun key image => ?_⟩
  · simp only [List.map_flatMap, List.flatMap_map, List.map_map, Function.comp_def]
  · rw [List.pairwise_flatMap]
    refine ⟨fun entry _ => List.pairwise_map.mpr ?_, hsorted.imp fun hab => ?_⟩
    · exact (hinner entry.2).imp fun hpq => .right _ hpq
    · simp only [List.mem_map]
      rintro _ ⟨p, _, rfl⟩ _ ⟨q, _, rfl⟩
      exact .left _ _ hab
  · simp only [List.mem_flatMap, List.mem_map, Prod.exists, Prod.mk.injEq]
    constructor
    · rintro ⟨k, value, hk, j, part, hj, rfl, rfl⟩
      exact ⟨value, (hm k value).mp hk, (hlies value j part).mp hj⟩
    · rintro ⟨value, hs, hl⟩
      exact ⟨key.1, value, (hm _ _).mpr hs, key.2, image, (hlies _ _ _).mpr hl, rfl, rfl⟩

variable [Std.Asymm before]

/-- **What stands before a value is what has an earlier key.** -/
theorem split_iff (h : Schedule before stands values) (value : α) (p : α → Prop) :
    (∃ front back, values = front ++ value :: back ∧ ∀ v ∈ front, p v) ↔
      ∃ key, stands key value ∧ ∀ k v, before k key → stands k v → p v := by
  obtain ⟨entries, rfl, hsorted, hm⟩ := h
  simp only [← hm]
  constructor
  · rintro ⟨front, back, h, hp⟩
    obtain ⟨front, rest, rfl, rfl, hrest⟩ := List.map_eq_append_iff.mp h
    obtain ⟨entry, back, rfl, rfl, rfl⟩ := List.map_eq_cons_iff.mp hrest
    refine ⟨entry.1, (sorted_split_iff hsorted).mp ⟨front, back, rfl, fun e he => ?_⟩⟩
    exact hp _ (List.mem_map_of_mem he)
  · rintro ⟨key, h⟩
    obtain ⟨front, back, rfl, hp⟩ := (sorted_split_iff hsorted).mpr h
    exact ⟨front.map Prod.snd, back.map Prod.snd, by rw [List.map_append, List.map_cons],
      List.forall_mem_map.mpr hp⟩

/-- The first value is the one that nothing has an earlier key than. -/
theorem head?_eq_some (h : Schedule before stands values) {value : α} :
    values.head? = some value ↔ ∃ key, stands key value ∧ ∀ k v, before k key → ¬ stands k v := by
  refine Iff.trans ?_ (h.split_iff value fun _ => False)
  constructor
  · intro hhead
    obtain ⟨back, rfl⟩ := List.head?_eq_some_iff.mp hhead
    exact ⟨[], back, rfl, fun v hv => List.not_mem_nil hv⟩
  · rintro ⟨front, back, rfl, hfront⟩
    obtain rfl := List.eq_nil_iff_forall_not_mem.mpr hfront
    rfl

/-- The last value is the one that nothing has a later key than. -/
theorem getLast?_eq_some (h : Schedule before stands values) {value : α} :
    values.getLast? = some value ↔ ∃ key, stands key value ∧ ∀ k v, before key k → ¬ stands k v := by
  have : Std.Asymm fun a b : ι => before b a := ⟨fun a b => Std.Asymm.asymm (r := before) b a⟩
  rw [← List.head?_reverse]
  exact h.reverse.head?_eq_some

/-- Up to the first value that ends it, a schedule has what no such value comes before. -/
theorem upTo (h : Schedule before stands values) (ends : α → Bool) :
    Schedule before
      (fun key value => stands key value ∧ ∀ k v, before k key → stands k v → ends v = false)
      (upTo ends values) := by
  obtain ⟨entries, rfl, hsorted, hm⟩ := h
  refine ⟨Stache.upTo (fun entry => ends entry.2) entries, map_upTo ends Prod.snd entries,
    hsorted.sublist (upTo_sublist _ _), fun key value => ?_⟩
  rw [mem_upTo]
  refine (sorted_split_iff hsorted (p := fun v => ends v = false)).trans ?_
  simp only [hm]

end Schedule

end Stache
