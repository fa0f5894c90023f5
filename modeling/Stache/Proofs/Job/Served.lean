import Stache.Proofs.Job.Loading

/-!
# Loads one after the other

A loader answers calls in one build, each with what the calls before it left behind: the registry, the
journal, and the stored modules. Time passes in between, but nobody else writes files.

* `LoadCall.run` -- what one call comes to;
* `Served` -- the builds that a sequence of calls leads to, with the results.
-/

namespace Stache

/-- A load that is asked for. -/
inductive LoadCall where
  /-- The template at a path, with the source that is given. -/
  | given (source : String) (template : Path)
  /-- The template at a path, with the source in its file. -/
  | inFile (template : Path)

namespace LoadCall

/-- The path of the template. -/
def template : LoadCall → Path
  | .given _ template => template
  | .inFile template => template

/-- What the call comes to in a build, and the build afterwards. -/
def run (config : Config) (call : LoadCall) (build : Build) : Except LoadError Loaded × Build :=
  match call with
  | .given source template => (load config source template).exec build
  | .inFile template => (loadFile config template).exec build

/-- The source that is compiled if the template is compiled: a file that cannot be read has none. -/
def source? (tree : FileTree) : LoadCall → Option String
  | .given source _ => some source
  | .inFile template => (tree.readText template).toOption

/-- **A call is a load** of its source, unless there is none. -/
theorem run_eq (config : Config) (call : LoadCall) (build : Build) :
    (∃ source, call.source? build.tree = some source ∧
      call.run config build = (load config source call.template).exec build) ∨
    call.source? build.tree = none ∧ ∃ error, call.run config build = (.error error, build) := by
  cases call with
  | given source template => exact .inl ⟨source, rfl, rfl⟩
  | inFile template =>
    unfold run loadFile source?
    dsimp only
    rw [BuildM.exec_bind, BuildM.exec_get]
    dsimp only
    cases build.tree.readText template with
    | ok source => exact .inl ⟨source, rfl, rfl⟩
    | error error => exact .inr ⟨rfl, _, rfl⟩

end LoadCall

/-- The builds that a sequence of calls leads to, with the calls and what they came to, the latest first. -/
inductive Served (config : Config) (start : Build) :
    List (LoadCall × Except LoadError Loaded) → Build → Prop where
  /-- No call yet. -/
  | start : Served config start [] start
  /-- One more call. -/
  | call {done : List (LoadCall × Except LoadError Loaded)} {build : Build}
    (before : Served config start done build) (call : LoadCall) :
    Served config start ((call, (call.run config build).1) :: done) (call.run config build).2
  /-- Another time. -/
  | wait {done : List (LoadCall × Except LoadError Loaded)} {build : Build}
    (before : Served config start done build) (now : Int) :
    Served config start done { build with tree := { build.tree with now } }

theorem Served.next {config : Config} {start build later : Build}
    {done : List (LoadCall × Except LoadError Loaded)} (before : Served config start done build)
    {call : LoadCall} {result : Except LoadError Loaded} (h : call.run config build = (result, later)) :
    Served config start ((call, result) :: done) later := by
  have hcall := before.call call
  rwa [h] at hcall

end Stache
