import Stache.Journal

/-!
# What the journal tells

The journal holds the whole course of a job. Three things are read off it: the symbols that were looked
for, the probes, and when a symbol was looked for, counted in probes. Messages tell nothing of these.
-/

namespace Stache

namespace Journal

variable (journal : Journal) (kind : SymbolKind) (name : String)

/-- The number of probes that were made before the last search for a symbol. -/
def probesBefore (kind : SymbolKind) (name : String) : Journal → Nat
  | [] => 0
  | .searched other n :: journal =>
    if other = kind ∧ n = name then probeCount journal else probesBefore kind name journal
  | .probed _ :: journal => probesBefore kind name journal
  | .logged _ _ :: journal => probesBefore kind name journal

/-- Two journals tell the same about searches and probes. -/
structure Agrees (a b : Journal) : Prop where
  searches : a.searches = b.searches
  probes : a.probes = b.probes
  probeCount : a.probeCount = b.probeCount
  probesBefore : ∀ kind name, a.probesBefore kind name = b.probesBefore kind name

namespace Agrees

variable {a b c : Journal}

theorem refl (journal : Journal) : Agrees journal journal := ⟨rfl, rfl, rfl, fun _ _ => rfl⟩

theorem trans (h : Agrees a b) (h' : Agrees b c) : Agrees a c where
  searches := h.searches.trans h'.searches
  probes := h.probes.trans h'.probes
  probeCount := h.probeCount.trans h'.probeCount
  probesBefore kind name := (h.probesBefore kind name).trans (h'.probesBefore kind name)

/-- A message tells nothing about searches and probes. -/
theorem log (level : Level) (message : String) : Agrees (journal.log level message) journal where
  searches := by simp [Journal.log, Journal.searches, symbol?]
  probes := by simp [Journal.log, Journal.probes, probe?]
  probeCount := by simp [Journal.log, Journal.probeCount, probe?]
  probesBefore _ _ := rfl

theorem logIf (wanted : Bool) (level : Level) (message : String) :
    Agrees (journal.logIf wanted level message) journal := by
  cases wanted with
  | true => exact log journal level message
  | false => exact refl journal

end Agrees

/-- The later journal tells of no other search, and of so many more probes. -/
structure ProbedFurther (journal later : Journal) (probes : Nat) : Prop where
  searches : later.searches = journal.searches
  probesBefore : ∀ kind name, later.probesBefore kind name = journal.probesBefore kind name
  probeCount : later.probeCount = journal.probeCount + probes

namespace ProbedFurther

variable {a b c : Journal} {m n : Nat}

theorem ofAgrees (h : Agrees b a) : ProbedFurther a b 0 :=
  ⟨h.searches, h.probesBefore, h.probeCount⟩

theorem trans (h : ProbedFurther a b m) (h' : ProbedFurther b c n) : ProbedFurther a c (m + n) where
  searches := h'.searches.trans h.searches
  probesBefore kind name := (h'.probesBefore kind name).trans (h.probesBefore kind name)
  probeCount := by rw [h'.probeCount, h.probeCount, Nat.add_assoc]

/-- A message more or less does not count. -/
theorem logIf (h : ProbedFurther a b n) (wanted : Bool) (level : Level) (message : String) :
    ProbedFurther a (b.logIf wanted level message) n :=
  h.trans (ofAgrees (.logIf b wanted level message))

theorem probed (probe : Probe) : ProbedFurther journal (.probed probe :: journal) 1 where
  searches := by simp [Journal.searches, symbol?]
  probesBefore _ _ := rfl
  probeCount := by simp [Journal.probeCount, probe?]

end ProbedFurther

theorem probes_probed (probe : Probe) :
    Journal.probes (.probed probe :: journal) = journal.probes ++ [probe] := by
  simp [probes, probe?]

theorem probes_search : (journal.search kind name).probes = journal.probes := by
  simp [search, probes, probe?]

@[simp] theorem searches_search :
    (journal.search kind name).searches = journal.searches ++ [(kind, name)] := by
  simp [search, searches, symbol?]

@[simp] theorem probeCount_search : (journal.search kind name).probeCount = journal.probeCount := by
  simp [search, probeCount, probe?]

theorem probesBefore_search (other : SymbolKind) (n : String) :
    (journal.search kind name).probesBefore other n =
      if kind = other ∧ name = n then journal.probeCount else journal.probesBefore other n := rfl

end Journal

end Stache
