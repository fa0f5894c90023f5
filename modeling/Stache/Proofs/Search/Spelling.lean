import Stache.Proofs.Files.Straight
import Stache.Proofs.Search.Module

/-!
# Spellings of a directory

Module resolution brings every place where it looks into normal form, but it finds the directories above the
base by taking components off its spelling. So what it finds is told by the normal form of the base as long as
this leads to no other directories.

* `ModuleRules.roots_eq` -- the places are told by the stacks on the way up;
* `FileView.firstFile?_eraseDups` -- to look somewhere again changes nothing;
* `FileView.resolveModule_spelling` -- **straight spellings of a directory are resolved from alike**, and so are
  all spellings by a request that is a path;
* `FileView.left_directory_searched` -- a spelling that is not straight finds what others do not.
-/

namespace Stache

namespace ModuleRules

variable (rules : ModuleRules) (request : String)

/-! ## 1. Places by stacks -/

/-- The places in the module directories of the directory with a stack. -/
def modulesAt (held : List Path.Component) : List Path :=
  rules.directories.map fun directory =>
    (((Path.ofComponents held.reverse).join ⟨directory⟩).join ⟨request⟩).normalize

/-- **Where a request may lead is told by the normal form of the base and the stacks above it.** -/
theorem roots_eq (base : Path) : rules.roots base request =
    (base.normalize.join ⟨request⟩).normalize ::
      if isPathRequest request then [] else (base.ancestors.map Path.stack).flatMap (rules.modulesAt request) := by
  have hmodules (above : Path) :
      (rules.directories.map fun directory => ((above.join ⟨directory⟩).join ⟨request⟩).normalize) =
        rules.modulesAt request above.stack := by
    refine List.map_congr_left fun directory _ => ?_
    show _ = ((above.normalize.join ⟨directory⟩).join ⟨request⟩).normalize
    rw [← Path.normalize_join, ← Path.normalize_join above, Path.normalize_join]
  unfold roots
  dsimp only
  rw [Path.normalize_join]
  split
  · rfl
  · rw [List.flatMap_map]
    simp only [hmodules]

end ModuleRules

namespace FileView

variable (view : FileView)

/-! ## 2. Looking again -/

/-- The search goes on as long as nothing is found. -/
theorem firstFile?_append (front back : List Path) :
    view.firstFile? (front ++ back) =
      (do let found ← view.firstFile? front
          if found.isSome then pure found else view.firstFile? back) := by
  induction front with
  | nil => rfl
  | cons path front ih =>
    rw [List.cons_append, firstFile?, firstFile?]
    cases view.probeFile path with
    | error error => rfl
    | ok isFile =>
      cases isFile with
      | true => rfl
      | false => exact ih

variable {α : Type} (places : α → List Path)

/-- Places where nothing is found may be left out. -/
theorem firstFile?_filter {p : α → Bool} (values : List α)
    (h : ∀ value, p value = false → view.firstFile? (places value) = .ok none) :
    view.firstFile? ((values.filter p).flatMap places) = view.firstFile? (values.flatMap places) := by
  induction values with
  | nil => rfl
  | cons value values ih =>
    rw [List.filter_cons, List.flatMap_cons, firstFile?_append]
    split
    · rw [List.flatMap_cons, firstFile?_append, ih]
    · rw [h value (Bool.eq_false_iff.mpr ‹_›), ih]
      rfl

/-- **To look at the same places again changes nothing.** -/
theorem firstFile?_eraseDups [BEq α] [LawfulBEq α] (values : List α) :
    view.firstFile? (values.eraseDups.flatMap places) = view.firstFile? (values.flatMap places) := by
  induction values using eraseDups_induction with
  | nil => rfl
  | cons value values ih =>
    rw [List.eraseDups_cons, List.flatMap_cons, List.flatMap_cons, firstFile?_append, firstFile?_append, ih]
    cases hfirst : view.firstFile? (places value) with
    | error error => rfl
    | ok found =>
      cases found with
      | some path => rfl
      | none =>
        refine view.firstFile?_filter places values fun v hv => ?_
        rw [Bool.not_eq_false', beq_iff_eq] at hv
        rw [hv, hfirst]

/-! ## 3. Straight spellings -/

variable {view} {rules : ModuleRules} {base other : Path} {request : String}

/-- What is found is the first file. -/
theorem toOption_resolveModule : (view.resolveModule rules base request).toOption =
    (view.firstFile? (rules.candidates base request)).toOption.join := by
  unfold resolveModule
  cases view.firstFile? (rules.candidates base request) with
  | error error => rfl
  | ok found => cases found <;> rfl

/-- Straight spellings of a directory lead to the same first file. -/
theorem firstFile?_spelling (h : base.normalize = other.normalize)
    (hs : ModuleRules.Bare request → base.Straight ∧ other.Straight) :
    view.firstFile? (rules.candidates base request) = view.firstFile? (rules.candidates other request) := by
  unfold ModuleRules.candidates
  rw [ModuleRules.roots_eq, ModuleRules.roots_eq, h]
  cases hpath : ModuleRules.isPathRequest request with
  | true => rfl
  | false =>
    obtain ⟨hbase, hother⟩ := hs (ModuleRules.isPathRequest_eq_false.mp hpath)
    have hwalk : base.walk = other.walk := by
      rw [hbase.walk_eq, hother.walk_eq, Path.normalize_eq_iff.mp h]
    have hmodules (files : List Path.Component → List Path) :
        view.firstFile? ((base.ancestors.map Path.stack).flatMap files) =
          view.firstFile? ((other.ancestors.map Path.stack).flatMap files) := by
      rw [← firstFile?_eraseDups, ← firstFile?_eraseDups view files (other.ancestors.map _)]
      exact congrArg (fun walk => view.firstFile? (walk.flatMap files)) hwalk
    simp only [Bool.false_eq_true, if_false, List.flatMap_cons, List.flatMap_assoc, firstFile?_append, hmodules]

/-! ## 4. Spellings that are not straight -/

/-- The file system with one file. -/
def only (file : Path) : FileView :=
  fun path => .ok (path == file)

theorem firstFile?_only (file : Path) (candidates : List Path) :
    (only file).firstFile? candidates = .ok (if file ∈ candidates then some file else none) := by
  induction candidates with
  | nil => rfl
  | cons first candidates ih =>
    have hprobe : (only file).probeFile first = .ok (first == file) := rfl
    rw [firstFile?, hprobe]
    by_cases hfirst : first = file
    · subst hfirst
      rw [beq_self_eq_true, if_pos List.mem_cons_self]
      rfl
    · rw [beq_false_of_ne hfirst]
      show firstFile? _ candidates = _
      rw [ih]
      simp [Ne.symm hfirst]

end FileView

namespace Path

/-- A name is joined to a normal form. -/
theorem normalize_join_name (p : Path) {name : String} (hname : (Component.normal name).IsPart) :
    (p.join ⟨name⟩).normalize = p.normalize.join ⟨name⟩ := by
  have hjoin : (p.join ⟨name⟩).components = p.components ++ [.normal name] :=
    (p.components_join_part hname).2
  have hstack : (p.join ⟨name⟩).stack = .normal name :: p.stack := by
    rw [stack, hjoin, List.foldl_append]
    rfl
  show ofComponents (p.join ⟨name⟩).stack.reverse = _
  rw [hstack, List.reverse_cons, ofComponents_concat]
  rfl

/-- A path ends as the name does that was joined to it. -/
theorem getLast?_join (p : Path) {name : String} {last : Char} (hslash : '/' ∉ name.toList)
    (hlast : name.toList.getLast? = some last) : (p.join ⟨name⟩).text.toList.getLast? = some last := by
  have hne : name.toList ≠ [] := fun e => by
    rw [e] at hlast
    cases hlast
  unfold join
  rw [isAbsolute_name hslash, if_neg Bool.false_ne_true]
  dsimp only
  split
  · rw [String.toList_append, List.getLast?_append_of_ne_nil _ hne, hlast]
  · rw [String.toList_append, List.getLast?_append_of_ne_nil _ hne, hlast]

end Path

namespace ModuleRules

/-- By default, the place itself is tried first. -/
theorem self_mem_candidatesAt (root : Path) : root ∈ candidatesAt {} root :=
  List.mem_cons.mpr (.inl (congrArg Path.mk String.append_empty.symm))

/-- By default, only the place itself can be tried under a name that ends with an `m`. -/
theorem eq_of_mem_candidatesAt {root path : Path} (h : path ∈ candidatesAt {} root)
    (hlast : path.text.toList.getLast? = some 'm') : path = root := by
  have hlist : candidatesAt {} root =
      [⟨root.text ++ ""⟩, ⟨root.text ++ ".js"⟩, root.join ⟨"index"⟩, root.join ⟨"index.js"⟩] := rfl
  rw [hlist] at h
  simp only [List.mem_cons, List.not_mem_nil, or_false] at h
  rcases h with rfl | rfl | rfl | rfl
  · rw [String.append_empty]
  · rw [String.toList_append, List.getLast?_append_of_ne_nil _ (by decide)] at hlast
    exact absurd hlast (by decide)
  · rw [Path.getLast?_join root (by decide) (show "index".toList.getLast? = some 'x' by decide)] at hlast
    exact absurd hlast (by decide)
  · rw [Path.getLast?_join root (by decide) (show "index.js".toList.getLast? = some 's' by decide)] at hlast
    exact absurd hlast (by decide)

theorem isPart_nodeModules : (Path.Component.normal "node_modules").IsPart :=
  ⟨by decide, by decide⟩

theorem isPart_m : (Path.Component.normal "m").IsPart :=
  ⟨by decide, by decide⟩

theorem bare_m : Bare "m" :=
  ⟨by decide, by decide, by decide, by decide, by decide⟩

/-- The module `m` of a directory. -/
def moduleIn (dir : Path) : Path :=
  (dir.normalize.join ⟨"node_modules"⟩).join ⟨"m"⟩

theorem components_moduleIn (dir : Path) :
    (moduleIn dir).components = (dir.normalize.components ++ [.normal "node_modules"]) ++ [.normal "m"] := by
  have hmodules : (dir.normalize.join ⟨"node_modules"⟩).components =
      dir.normalize.components ++ [.normal "node_modules"] :=
    (dir.normalize.components_join_part isPart_nodeModules).2
  rw [← hmodules]
  exact ((dir.normalize.join ⟨"node_modules"⟩).components_join_part isPart_m).2

/-- The places of the bare request `m` are the one in the base, and that in every directory above. -/
theorem mem_roots_m {base root : Path} : root ∈ roots {} base "m" ↔
    root = base.normalize.join ⟨"m"⟩ ∨ ∃ above ∈ base.ancestors, root = moduleIn above := by
  have hmodule (above : Path) : ((above.join ⟨"node_modules"⟩).join ⟨"m"⟩).normalize = moduleIn above := by
    rw [Path.normalize_join_name _ isPart_m, Path.normalize_join_name _ isPart_nodeModules]
    rfl
  unfold roots
  dsimp only
  rw [isPathRequest_eq_false.mpr bare_m, if_neg Bool.false_ne_true, base.normalize_join_name isPart_m]
  simp only [List.mem_cons, List.mem_flatMap, List.map_cons, List.map_nil, List.not_mem_nil, or_false, hmodule]

end ModuleRules

namespace FileView

open ModuleRules

/-- The module of a directory that the spelling passes through is found, and if the directory is not above the
    base, it is not found from the normal form. -/
theorem found_only_from {base above : Path} (habove : above ∈ base.ancestors)
    (h : ¬ above.normalize.components <+: base.normalize.components) :
    ((only (moduleIn above)).resolveModule {} base "m").toOption = some (moduleIn above) ∧
      ((only (moduleIn above)).resolveModule {} base.normalize "m").toOption = none := by
  have hlast : (moduleIn above).text.toList.getLast? = some 'm' :=
    Path.getLast?_join _ (by decide) (by decide)
  have hfrom : moduleIn above ∈ candidates {} base "m" :=
    List.mem_flatMap.mpr ⟨_, mem_roots_m.mpr (.inr ⟨above, habove, rfl⟩), self_mem_candidatesAt _⟩
  have hfromNormal : moduleIn above ∉ candidates {} base.normalize "m" := by
    intro hm
    obtain ⟨root, hroot, hfile⟩ := List.mem_flatMap.mp hm
    obtain rfl := eq_of_mem_candidatesAt hfile hlast
    rcases mem_roots_m.mp hroot with hdirect | ⟨other, hother, hsame⟩
    · -- the base itself would be called `node_modules`
      have hcomponents := components_moduleIn above
      have hbase : (base.normalize.normalize.join ⟨"m"⟩).components =
          base.normalize.normalize.components ++ [.normal "m"] :=
        (Path.components_join_part _ isPart_m).2
      rw [hdirect, hbase, Path.components_normalize, Path.stack_normalize, ← Path.components_normalize] at hcomponents
      rw [List.append_inj_left' hcomponents rfl] at h
      exact h (List.prefix_append _ _)
    · have hcomponents := components_moduleIn above
      rw [hsame, components_moduleIn] at hcomponents
      have hboth := List.append_inj_left' (List.append_inj_left' hcomponents rfl) rfl
      have hstraight := base.straight_normalize other hother
      rw [hboth, Path.components_normalize base.normalize, Path.stack_normalize, ← Path.components_normalize]
        at hstraight
      exact h hstraight
  rw [toOption_resolveModule, toOption_resolveModule, firstFile?_only, firstFile?_only, if_pos hfrom,
    if_neg hfromNormal]
  exact ⟨rfl, rfl⟩

/-- **Spellings of a directory.** If two bases have the same normal form, a request that is a path leads to the
    same file from both, or to none, and so does a bare one if both spellings are straight. A spelling that is
    not straight is told from its normal form by some file system. -/
theorem resolveModule_spelling (base other : Path) (h : base.normalize = other.normalize) :
    (∀ (view : FileView) (rules : ModuleRules) (request : String),
      (Bare request → base.Straight ∧ other.Straight) →
        (view.resolveModule rules base request).toOption = (view.resolveModule rules other request).toOption) ∧
    (¬ base.Straight → ∃ (view : FileView) (request : String),
      (view.resolveModule {} base request).toOption ≠ (view.resolveModule {} base.normalize request).toOption) := by
  refine ⟨fun view rules request hs => ?_, fun hbase => ?_⟩
  · rw [toOption_resolveModule, toOption_resolveModule, firstFile?_spelling h hs]
  · unfold Path.Straight at hbase
    push Not at hbase
    obtain ⟨above, habove, hnot⟩ := hbase
    obtain ⟨hfound, hmissed⟩ := found_only_from habove hnot
    refine ⟨only (moduleIn above), "m", ?_⟩
    rw [hfound, hmissed]
    exact Option.some_ne_none _

/-- A module below `a/x`. -/
def nested : FileTree :=
  ({} : FileTree).plant ["a", "x", "node_modules", "m.js"] (.file (.ofText "") 0)

/-- Repeated separators and `.` do not matter, and `a/x/..` is not straight. -/
theorem resolveModule_spelling_nested :
    (Path.normalize ⟨"./a//x/"⟩ = Path.normalize ⟨"a/x"⟩ ∧ Path.Straight ⟨"./a//x/"⟩ ∧ Path.Straight ⟨"a/x"⟩ ∧
      (nested.view.resolveModule {} ⟨"./a//x/"⟩ "m").toOption =
        (nested.view.resolveModule {} ⟨"a/x"⟩ "m").toOption) ∧
    Path.normalize ⟨"a/x/.."⟩ = Path.normalize ⟨"a"⟩ ∧ ¬ Path.Straight ⟨"a/x/.."⟩ ∧
      ∃ (view : FileView) (request : String), (view.resolveModule {} ⟨"a/x/.."⟩ request).toOption ≠
        (view.resolveModule {} (Path.normalize ⟨"a/x/.."⟩) request).toOption := by
  have hnormal : Path.normalize ⟨"./a//x/"⟩ = Path.normalize ⟨"a/x"⟩ := by decide +kernel
  have hstraight : Path.Straight ⟨"./a//x/"⟩ ∧ Path.Straight ⟨"a/x"⟩ := by decide +kernel
  have hleft : Path.normalize ⟨"a/x/.."⟩ = Path.normalize ⟨"a"⟩ := by decide +kernel
  have hback : ¬ Path.Straight ⟨"a/x/.."⟩ := by decide +kernel
  have hsame := (resolveModule_spelling _ _ hnormal).1 nested.view {} "m" fun _ => hstraight
  exact ⟨⟨hnormal, hstraight.1, hstraight.2, hsame⟩, hleft, hback, (resolveModule_spelling _ _ hleft).2 hback⟩

/-- **A directory that the spelling has left is searched**: `a/x/..` and `a` have the same normal form, and only
    from the first one the module below `a/x` is found. -/
theorem left_directory_searched : Path.normalize ⟨"a/x/.."⟩ = Path.normalize ⟨"a"⟩ ∧
    (nested.resolveModule {} ⟨"a/x/.."⟩ "m").toOption = some ⟨"a/x/node_modules/m.js"⟩ ∧
    (nested.resolveModule {} ⟨"a"⟩ "m").toOption = none := by
  decide +kernel

end FileView

end Stache
