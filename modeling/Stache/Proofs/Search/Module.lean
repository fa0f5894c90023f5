import Stache.Proofs.Files.Ancestors
import Stache.Proofs.Search.Schedule
import Stache.Proofs.Text.Marks
import Stache.Search.Module

/-!
# What a probe finds

A module is tried at one place after the other, and the first place that is a file is the answer. The order
of the places is told by numbers, so it does not depend on how the places are listed.

* `ModuleRules.IsRoot`, `ModuleRules.IsFileAt` -- the places, each with its numbers;
* `FileView.Hit` -- the file at the first place where there is one, with nothing before it that cannot be
  looked at;
* `FileView.resolveModule_eq_ok` -- **a probe finds exactly the hit**.
-/

namespace Stache

namespace ModuleRules

variable (rules : ModuleRules) (base : Path) (request : String)

/-! ## 1. Places -/

/-- A request that is no path: it is not `.` or `..`, and does not begin with `./`, `../` or `/`. -/
structure Bare (request : String) : Prop where
  ne_dot : request ≠ "."
  ne_dots : request ≠ ".."
  not_dot : ¬ "./".toList <+: request.toList
  not_dots : ¬ "../".toList <+: request.toList
  not_slash : ¬ "/".toList <+: request.toList

/-- The places where a request may lead, by two numbers. The directory itself comes first. For a bare
    request its module directories follow, then those of the directory above it, and so on; the second
    number is that of the module directory. -/
inductive IsRoot : Nat × Nat → Path → Prop
  /-- The request as seen from the directory. -/
  | direct : IsRoot (0, 0) (base.join ⟨request⟩).normalize
  /-- The request as seen from a module directory. -/
  | inModules {level number : Nat} {above : Path} {directory : String} :
    Bare request → base.Ancestor level above → rules.directories[number]? = some directory →
    IsRoot (level + 1, number) ((above.join ⟨directory⟩).join ⟨request⟩).normalize

/-- The files that are tried at a place, by two numbers. The first number tells an index file inside the
    place from the place itself, the second one is that of the extension. -/
inductive IsFileAt (root : Path) : Nat × Nat → Path → Prop
  /-- The place itself. -/
  | itself {number : Nat} {extension : String} :
    rules.extensions[number]? = some extension → IsFileAt root (0, number) ⟨root.text ++ extension⟩
  /-- An index file inside. -/
  | index {number : Nat} {extension : String} :
    rules.extensions[number]? = some extension →
    IsFileAt root (1, number) (root.join ⟨"index" ++ extension⟩)

/-- The files that are tried, by the numbers of the place and of the file at it. -/
def IsCandidate (place : (Nat × Nat) × (Nat × Nat)) (path : Path) : Prop :=
  ∃ root, rules.IsRoot base request place.1 root ∧ rules.IsFileAt root place.2 path

/-- A place comes before another one, and at one place a file before another one. -/
abbrev EarlierPlace : (Nat × Nat) × (Nat × Nat) → (Nat × Nat) × (Nat × Nat) → Prop :=
  Prod.Lex Earlier Earlier

variable {request}

theorem isPathRequest_eq_false : isPathRequest request = false ↔ Bare request := by
  have hafter (mark : String) : (Text.afterMark? mark.toList request.toList).isSome = false ↔
      ¬ mark.toList <+: request.toList := by
    rw [Option.isSome_eq_false_iff, Option.isNone_iff_eq_none, Text.afterMark?_eq_none]
  have htext (other : String) : (request.toList == other.toList) = false ↔ request ≠ other := by
    rw [beq_eq_false_iff_ne, Ne, String.toList_inj]
  have hslash : (request.toList.head? == some '/') = false ↔ ¬ "/".toList <+: request.toList := by
    rw [beq_eq_false_iff_ne]
    cases request.toList with
    | nil => simp
    | cons c text => simp [eq_comm]
  unfold isPathRequest
  simp only [Bool.or_eq_false_iff, hafter, hslash]
  constructor
  · rintro ⟨⟨⟨⟨h₁, h₂⟩, h₃⟩, h₄⟩, h₅⟩
    exact ⟨(htext ".").mp h₁, (htext "..").mp h₂, h₃, h₄, h₅⟩
  · rintro ⟨h₁, h₂, h₃, h₄, h₅⟩
    exact ⟨⟨⟨⟨(htext ".").mpr h₁, (htext "..").mpr h₂⟩, h₃⟩, h₄⟩, h₅⟩

variable (request)

/-- The places, level by level. -/
def levels : List (List Path) :=
  [(base.join ⟨request⟩).normalize] ::
    if isPathRequest request then [] else base.ancestors.map fun above =>
      rules.directories.map fun directory => ((above.join ⟨directory⟩).join ⟨request⟩).normalize

theorem flatten_levels : (rules.levels base request).flatMap id = rules.roots base request := by
  unfold levels roots
  dsimp only
  split
  · rfl
  · rw [List.flatMap_cons, List.flatMap_map]
    rfl

/-- Behind the first level are the module directories of an ancestor each, if the request is bare. -/
theorem getElem?_levels {level : Nat} {places : List Path} :
    (rules.levels base request)[level + 1]? = some places ↔ Bare request ∧ ∃ above,
      base.Ancestor level above ∧ (rules.directories.map fun directory =>
        ((above.join ⟨directory⟩).join ⟨request⟩).normalize) = places := by
  unfold levels
  rw [List.getElem?_cons_succ]
  cases hpath : isPathRequest request with
  | true =>
    have hbare : ¬ Bare request := fun h => by
      rw [isPathRequest_eq_false.mpr h] at hpath
      cases hpath
    simp [hbare]
  | false =>
    rw [if_neg Bool.false_ne_true, List.getElem?_map, Option.map_eq_some_iff]
    simp only [isPathRequest_eq_false.mp hpath, Path.getElem?_ancestors, true_and]

/-- The places in the order of their numbers. -/
theorem roots_schedule : Schedule Earlier (rules.IsRoot base request) (rules.roots base request) := by
  rw [← flatten_levels]
  refine ((Schedule.ofList _).flatMap Schedule.ofList).congr fun key path => ?_
  obtain ⟨level, number⟩ := key
  constructor
  · intro h
    obtain ⟨places, hlevel, hnumber⟩ := h
    cases level with
    | zero =>
      cases hlevel
      cases number with
      | zero =>
        cases hnumber
        exact .direct
      | succ number => cases hnumber
    | succ level =>
      obtain ⟨hbare, above, habove, rfl⟩ := (rules.getElem?_levels base request).mp hlevel
      obtain ⟨directory, hdirectory, rfl⟩ := Option.map_eq_some_iff.mp (List.getElem?_map ▸ hnumber)
      exact .inModules hbare habove hdirectory
  · intro h
    cases h with
    | direct => exact ⟨_, rfl, rfl⟩
    | inModules hbare habove hdirectory =>
      refine ⟨_, (rules.getElem?_levels base request).mpr ⟨hbare, _, habove, rfl⟩, ?_⟩
      rw [List.getElem?_map, hdirectory, Option.map_some]

/-- The files at a place, the place itself first. -/
theorem candidatesAt_schedule (root : Path) :
    Schedule Earlier (rules.IsFileAt root) (rules.candidatesAt root) := by
  have hlist : rules.candidatesAt root =
      [rules.extensions.map fun extension => ⟨root.text ++ extension⟩,
        rules.extensions.map fun extension => root.join ⟨"index" ++ extension⟩].flatMap id := by
    simp [candidatesAt]
  rw [hlist]
  refine ((Schedule.ofList _).flatMap Schedule.ofList).congr fun key path => ?_
  obtain ⟨form, number⟩ := key
  constructor
  · intro h
    obtain ⟨files, hform, hnumber⟩ := h
    -- there are two lists of files
    obtain _ | _ | form := form
    · cases hform
      obtain ⟨extension, hextension, rfl⟩ := Option.map_eq_some_iff.mp (List.getElem?_map ▸ hnumber)
      exact .itself hextension
    · cases hform
      obtain ⟨extension, hextension, rfl⟩ := Option.map_eq_some_iff.mp (List.getElem?_map ▸ hnumber)
      exact .index hextension
    · cases hform
  · intro h
    cases h with
    | itself hextension => exact ⟨_, rfl, by rw [List.getElem?_map, hextension, Option.map_some]⟩
    | index hextension => exact ⟨_, rfl, by rw [List.getElem?_map, hextension, Option.map_some]⟩

/-- **All files that are tried, in the order of their numbers.** -/
theorem candidates_schedule :
    Schedule EarlierPlace (rules.IsCandidate base request) (rules.candidates base request) :=
  (rules.roots_schedule base request).flatMap rules.candidatesAt_schedule

end ModuleRules

namespace FileView

variable (view : FileView)

/-! ## 2. The first file -/

/-- What is at the path cannot be told: the failure does not tell that there is nothing. -/
def Inaccessible (path : Path) : Prop :=
  ∃ error, view path = .error error ∧ error.isAbsence = false

/-- The file at the first place of a request where there is one. No place before it is a file, and none of
    them is inaccessible. -/
def Hit (rules : ModuleRules) (base : Path) (request : String) (path : Path) : Prop :=
  ∃ place, rules.IsCandidate base request place path ∧ view path = .ok true ∧
    ∀ earlier other, ModuleRules.EarlierPlace earlier place →
      rules.IsCandidate base request earlier other → view other ≠ .ok true ∧ ¬ view.Inaccessible other

variable {view} {path : Path}

theorem probeFile_eq_true : view.probeFile path = .ok true ↔ view path = .ok true := by
  unfold probeFile
  cases view path with
  | ok isFile => simp
  | error error =>
    dsimp only
    split <;> simp

theorem probeFile_eq_false :
    view.probeFile path = .ok false ↔ view path ≠ .ok true ∧ ¬ view.Inaccessible path := by
  unfold probeFile Inaccessible
  cases view path with
  | ok isFile => simp
  | error error =>
    dsimp only
    split <;> simp_all

/-- The first candidate is a file, or it is none and one of the others is the first one. -/
theorem firstFile?_cons {first : Path} {candidates : List Path} :
    view.firstFile? (first :: candidates) = .ok (some path) ↔
      view.probeFile first = .ok true ∧ first = path ∨
        view.probeFile first = .ok false ∧ view.firstFile? candidates = .ok (some path) := by
  rw [firstFile?]
  cases view.probeFile first with
  | error error => simp [bind, Except.bind]
  | ok isFile => cases isFile <;> simp [bind, Except.bind, pure, Except.pure]

/-- Looking through candidates ends at the first file, if nothing before it is inaccessible. -/
theorem firstFile?_eq_some {candidates : List Path} :
    view.firstFile? candidates = .ok (some path) ↔
      ∃ front back, candidates = front ++ path :: back ∧ view.probeFile path = .ok true ∧
        ∀ other ∈ front, view.probeFile other = .ok false := by
  induction candidates with
  | nil => simp [firstFile?]
  | cons first candidates ih =>
    rw [firstFile?_cons, ih]
    constructor
    · rintro (⟨hprobe, rfl⟩ | ⟨hprobe, front, back, rfl, hpath, hfront⟩)
      · exact ⟨[], candidates, rfl, hprobe, by simp⟩
      · exact ⟨first :: front, back, rfl, hpath, List.forall_mem_cons.mpr ⟨hprobe, hfront⟩⟩
    · intro h
      obtain ⟨front, back, h, hpath, hfront⟩ := h
      cases front with
      | nil =>
        obtain ⟨rfl, rfl⟩ := List.cons.inj h
        exact .inl ⟨hpath, rfl⟩
      | cons f front =>
        obtain ⟨rfl, rfl⟩ := List.cons.inj h
        obtain ⟨hf, hfront⟩ := List.forall_mem_cons.mp hfront
        exact .inr ⟨hf, front, back, rfl, hpath, hfront⟩

theorem resolveModule_eq_firstFile? {rules : ModuleRules} {base : Path} {request : String} :
    view.resolveModule rules base request = .ok path ↔
      view.firstFile? (rules.candidates base request) = .ok (some path) := by
  unfold resolveModule
  cases view.firstFile? (rules.candidates base request) with
  | error error => simp [bind, Except.bind]
  | ok found =>
    cases found with
    | none => simp [bind, Except.bind, throw, throwThe, MonadExceptOf.throw]
    | some other => simp [bind, Except.bind, pure, Except.pure]

/-- **A probe finds exactly the hit.** -/
theorem resolveModule_eq_ok {rules : ModuleRules} {base : Path} {request : String} :
    view.resolveModule rules base request = .ok path ↔ view.Hit rules base request path := by
  have hsplit := (rules.candidates_schedule base request).split_iff path
    fun other => view.probeFile other = .ok false
  rw [resolveModule_eq_firstFile?, firstFile?_eq_some]
  simp only [Hit, ← probeFile_eq_true, ← probeFile_eq_false]
  constructor
  · rintro ⟨front, back, hcandidates, hpath, hfront⟩
    obtain ⟨place, hplace, hearlier⟩ := hsplit.mp ⟨front, back, hcandidates, hfront⟩
    exact ⟨place, hplace, hpath, hearlier⟩
  · rintro ⟨place, hplace, hpath, hearlier⟩
    obtain ⟨front, back, hcandidates, hfront⟩ := hsplit.mpr ⟨place, hplace, hearlier⟩
    exact ⟨front, back, hcandidates, hpath, hfront⟩

end FileView

end Stache
