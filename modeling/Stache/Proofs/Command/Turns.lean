import Stache.Command.Run
import Stache.Proofs.Job.Loading

/-!
# Templates that are compiled in turn

A command that compiles templates into a directory reads its options, makes the directory, and then takes
the templates one after the other: each is loaded from its place, and its module is written before the next
one has its turn. It stops at the first failure.

* `CommandM.exec` -- carries a computation of a command out, with one equation for each kind of step;
* `Turn`, `runOne_turn` -- what the turn of one template comes to;
* `Turns`, `forM_turns` -- the turns of any number of templates;
* `RunEnds`, `Invocation.run_ends` -- **what the whole command comes to**.
-/

namespace Stache

/-! ## 1. Carrying a computation out -/

namespace CommandM

variable {α β : Type}

/-- What a computation comes to in a session, and the session afterwards. -/
def exec (m : CommandM α) (session : Session) : Except Failure α × Session :=
  m.run.run session

theorem exec_bind (m : CommandM α) (f : α → CommandM β) (session : Session) :
    (m >>= f).exec session =
      match m.exec session with
      | (.ok a, later) => (f a).exec later
      | (.error failure, later) => (.error failure, later) := by
  show (ExceptT.bindCont f (m.exec session).1).run (m.exec session).2 = _
  rcases m.exec session with ⟨_ | _, _⟩
  · rfl
  · rfl

theorem exec_get (session : Session) : (get : CommandM Session).exec session = (.ok session, session) := rfl

theorem exec_ofExcept (result : Except Failure α) (session : Session) :
    (MonadExcept.ofExcept result : CommandM α).exec session = (result, session) := by
  cases result <;> rfl

/-- An error of a load is the cause of a failure. -/
def failing (result : Except LoadError α) : Except Failure α :=
  result.mapError fun error => .ofCause (.load error)

theorem exec_ofResult (result : Except LoadError α) (session : Session) :
    (ofResult result).exec session = (failing result, session) :=
  exec_ofExcept _ session

theorem exec_ofBuild (job : BuildM α) (session : Session) : (ofBuild job).exec session =
    (failing (job.exec session.build).1, { session with build := (job.exec session.build).2 }) :=
  exec_ofExcept _ _

theorem exec_log (level : Level) (message : String) (session : Session) :
    (ofBuild (logBuild level message)).exec session = (.ok ⟨⟩,
      { session with build :=
        { session.build with journal := session.build.journal.log level message } }) := rfl

theorem exec_ofFiles (change : FileTree → Except Failure α × FileTree) (session : Session) :
    (ofFiles change).exec session = ((change session.build.tree).1,
      { session with build := { session.build with tree := (change session.build.tree).2 } }) :=
  exec_ofExcept _ _

end CommandM

open CommandM CompileRequest

/-! ## 2. One turn -/

/-- What the turn of a template comes to: its module is written into the directory, or something fails. -/
inductive Turn (config : Config) (outDir template : Path) (build : Build) :
    Except Failure Loaded × Build → Prop where
  /-- The template has no place. -/
  | misplaced {failure : Failure} (stands : absolute build.tree template = .error failure) :
    Turn config outDir template build (.error failure, build)
  /-- The template cannot be loaded. -/
  | unloaded {place : Path} {error : LoadError} {later : Build}
    (stands : absolute build.tree template = .ok place)
    (load : (loadFile config place).exec build = (.error error, later)) :
    Turn config outDir template build (.error (.ofCause (.load error)), later)
  /-- Its module cannot be written. -/
  | unwritten {place : Path} {loaded : Loaded} {middle later : Build} {failure : Failure} {tree : FileTree}
    (stands : absolute build.tree template = .ok place)
    (load : (loadFile config place).exec build = (.ok loaded, middle))
    (write : middle.tree.writeFile (targetIn outDir template) loaded.text = (.error failure, tree))
    (told : Build.Told { middle with tree } later) :
    Turn config outDir template build (.error failure, later)
  /-- Its module is written. -/
  | written {place : Path} {loaded : Loaded} {middle later : Build} {tree : FileTree}
    (stands : absolute build.tree template = .ok place)
    (load : (loadFile config place).exec build = (.ok loaded, middle))
    (write : middle.tree.writeFile (targetIn outDir template) loaded.text = (.ok ⟨⟩, tree))
    (told : Build.Told { middle with tree } later) :
    Turn config outDir template build (.ok loaded, later)

variable {request : CompileRequest} {outDir : Path}

/-- To write a module writes its file, and says so. -/
theorem exec_writeModule (quiet : Bool) (outDir template : Path) (loaded : Loaded) (session : Session) :
    ∃ later, (writeModule quiet outDir template loaded).exec session =
        ((session.build.tree.writeFile (targetIn outDir template) loaded.text).1, later) ∧
      Build.Told { session.build with
        tree := (session.build.tree.writeFile (targetIn outDir template) loaded.text).2 } later.build := by
  unfold writeModule
  rw [exec_bind, exec_ofFiles]
  rcases session.build.tree.writeFile (targetIn outDir template) loaded.text with ⟨failure | ⟨⟩, tree⟩
  · exact ⟨_, rfl, .refl _⟩
  dsimp only
  rw [exec_bind, exec_log]
  dsimp only
  split
  · exact ⟨_, rfl, .log _ _ _⟩
  · exact ⟨_, rfl, .log _ _ _⟩

/-- **To compile one template** comes to one of the ends of its turn. -/
theorem runOne_turn (hdir : request.outDir = some outDir) (quiet : Bool) (config : Config)
    (template : Path) (session : Session) :
    ∃ result later, Turn config outDir template session.build (result, later.build) ∧
      (request.runOne quiet config template).exec session = (result.map fun _ => ⟨⟩, later) := by
  unfold runOne
  rw [exec_bind, exec_get]
  dsimp only
  rw [exec_bind, exec_ofExcept]
  cases hplace : absolute session.build.tree template with
  | error failure => exact ⟨.error failure, session, .misplaced hplace, rfl⟩
  | ok place =>
    dsimp only
    rw [exec_bind, exec_ofBuild]
    rcases hload : (loadFile config place).exec session.build with ⟨error | loaded, middle⟩
    · exact ⟨.error (.ofCause (.load error)), { session with build := middle }, .unloaded hplace hload, rfl⟩
    dsimp only [failing, Except.mapError]
    rw [exec_bind, exec_log, hdir]
    dsimp only
    obtain ⟨later, hexec, htold⟩ := exec_writeModule quiet outDir template loaded
      { session with build := { middle with journal := middle.journal.log .debug _ } }
    rw [hexec]
    dsimp only at htold ⊢
    rcases hwrite : middle.tree.writeFile (targetIn outDir template) loaded.text with ⟨failure | ⟨⟩, tree⟩
    · rw [hwrite] at htold
      exact ⟨.error failure, later, .unwritten hplace hload hwrite ((Build.Told.log _ _ _).trans htold), rfl⟩
    · rw [hwrite] at htold
      exact ⟨.ok loaded, later, .written hplace hload hwrite ((Build.Told.log _ _ _).trans htold), rfl⟩

/-! ## 3. Any number of turns -/

/-- The templates have their turns, one after the other, until one fails. Listed are those that are done,
    with what they were loaded to. -/
inductive Turns (config : Config) (outDir : Path) :
    Build → List Path → List (Path × Loaded) → Option Failure → Build → Prop where
  /-- No template is left. -/
  | finished {build : Build} : Turns config outDir build [] [] none build
  /-- The next one fails. -/
  | failed {build later : Build} {template : Path} {templates : List Path} {failure : Failure}
    (turn : Turn config outDir template build (.error failure, later)) :
    Turns config outDir build (template :: templates) [] (some failure) later
  /-- The next one is done, and it is the turn of the others. -/
  | done {build middle later : Build} {template : Path} {templates : List Path} {loaded : Loaded}
    {others : List (Path × Loaded)} {failure : Option Failure}
    (turn : Turn config outDir template build (.ok loaded, middle))
    (rest : Turns config outDir middle templates others failure later) :
    Turns config outDir build (template :: templates) ((template, loaded) :: others) failure later

/-- A failure as a result. -/
def resultOf : Option Failure → Except Failure Unit
  | none => .ok ⟨⟩
  | some failure => .error failure

/-- **To compile templates** comes to their turns. -/
theorem forM_turns (hdir : request.outDir = some outDir) (quiet : Bool) (config : Config)
    (templates : List Path) (session : Session) :
    ∃ done failure later, Turns config outDir session.build templates done failure later.build ∧
      (templates.forM (request.runOne quiet config)).exec session = (resultOf failure, later) := by
  induction templates generalizing session with
  | nil => exact ⟨[], none, session, .finished, rfl⟩
  | cons template templates ih =>
    obtain ⟨result, middle, hturn, hexec⟩ := runOne_turn hdir quiet config template session
    have hcons : (template :: templates).forM (request.runOne quiet config) =
        request.runOne quiet config template >>= fun _ => templates.forM (request.runOne quiet config) :=
      rfl
    rw [hcons, exec_bind, hexec]
    cases result with
    | error failure => exact ⟨[], some failure, middle, .failed hturn, rfl⟩
    | ok loaded =>
      obtain ⟨done, failure, later, hturns, hrest⟩ := ih middle
      exact ⟨(template, loaded) :: done, failure, later, .done hturn hturns, hrest⟩

/-- All templates are done exactly if there is no failure. -/
theorem Turns.all_done {config : Config} {build later : Build} {templates : List Path} {done : List (Path × Loaded)}
    {failure : Option Failure} (h : Turns config outDir build templates done failure later) :
    done.map Prod.fst <+: templates ∧ (failure = none ↔ done.map Prod.fst = templates) := by
  induction h with
  | finished => exact ⟨List.nil_prefix, iff_of_true rfl rfl⟩
  | failed => exact ⟨List.nil_prefix, iff_of_false nofun nofun⟩
  | @done _ _ _ template _ _ _ _ _ _ ih =>
    refine ⟨(List.prefix_cons_inj template).mpr ih.1, ih.2.trans ?_⟩
    exact (List.cons_inj_right template).symm

/-! ## 4. The whole command -/

/-- The configuration of a command, from all options. -/
def CompileRequest.configIn (request : CompileRequest) (environment : Environment) (tree : FileTree) :
    Except Failure Config :=
  request.allOptions tree >>= fun options => failing (Config.ofOptions environment options)

/-- What it comes to that templates are compiled into a directory: what is done, the failure if there is
    one, and the build afterwards. -/
inductive RunEnds (request : CompileRequest) (environment : Environment) (outDir : Path) (tree : FileTree) :
    List (Path × Loaded) → Option Failure → Build → Prop where
  /-- The options cannot be used. -/
  | unusable {failure : Failure} (options : request.configIn environment tree = .error failure) :
    RunEnds request environment outDir tree [] (some failure) { tree }
  /-- The directory cannot be made. -/
  | unmade {config : Config} {failure : Failure} {made : FileTree}
    (options : request.configIn environment tree = .ok config)
    (dir : tree.ensureDir outDir = (.error failure, made)) :
    RunEnds request environment outDir tree [] (some failure) { tree := made }
  /-- The templates have their turns. -/
  | turned {config : Config} {made : FileTree} {done : List (Path × Loaded)} {failure : Option Failure}
    {later : Build} (options : request.configIn environment tree = .ok config)
    (dir : tree.ensureDir outDir = (.ok ⟨⟩, made))
    (turns : Turns config outDir { tree := made } request.templates done failure later) :
    RunEnds request environment outDir tree done failure later

/-- All templates are done if there is no failure. -/
theorem RunEnds.all_done {environment : Environment} {tree : FileTree} {done : List (Path × Loaded)}
    {failure : Option Failure} {later : Build}
    (h : RunEnds request environment outDir tree done failure later) :
    done.map Prod.fst <+: request.templates ∧
      (failure = none → done.map Prod.fst = request.templates) := by
  cases h with
  | unusable => exact ⟨List.nil_prefix, nofun⟩
  | unmade => exact ⟨List.nil_prefix, nofun⟩
  | turned _ _ turns => exact ⟨turns.all_done.1, turns.all_done.2.mp⟩

/-- **The command comes to one of these ends.** -/
theorem CompileRequest.run_ends (hdir : request.outDir = some outDir) (environment : Environment) (quiet : Bool)
    (tree : FileTree) :
    ∃ done failure later, RunEnds request environment outDir tree done failure later.build ∧
      (request.run environment quiet).exec { build := { tree } } = (resultOf failure, later) := by
  have hmany : ¬ (request.outDir = none ∧ 1 < request.templates.length) := by
    rw [hdir]
    exact fun h => nomatch h.1
  unfold CompileRequest.run
  rw [if_neg hmany]
  dsimp only
  rw [exec_bind, exec_get]
  dsimp only
  rw [exec_bind, exec_ofExcept]
  cases hoptions : request.allOptions tree with
  | error failure =>
    have hconfig : request.configIn environment tree = .error failure := by
      rw [configIn, hoptions]
      rfl
    exact ⟨[], some failure, _, .unusable hconfig, rfl⟩
  | ok options =>
    have hconfig : request.configIn environment tree = failing (Config.ofOptions environment options) := by
      rw [configIn, hoptions]
      rfl
    dsimp only
    rw [exec_bind, exec_ofResult]
    cases hused : failing (Config.ofOptions environment options) with
    | error failure => exact ⟨[], some failure, _, .unusable (hconfig.trans hused), rfl⟩
    | ok config =>
      dsimp only
      rw [hdir]
      dsimp only
      rw [exec_bind, exec_ofFiles]
      dsimp only
      rcases hmade : tree.ensureDir outDir with ⟨failure | ⟨⟩, made⟩
      · exact ⟨[], some failure, _, .unmade (hconfig.trans hused) hmade, rfl⟩
      · obtain ⟨done, failure, later, hturns, hexec⟩ := forM_turns hdir quiet config
          request.templates { build := { tree := made } }
        exact ⟨done, failure, later, .turned (hconfig.trans hused) hmade hturns, hexec⟩

/-- **What is run to compile templates** comes to one of these ends, too. -/
theorem Invocation.run_ends {invocation : Invocation} (hcommand : invocation.command = .compile request)
    (hdir : request.outDir = some outDir) (environment : Environment) (tree : FileTree) :
    ∃ done later,
      RunEnds request environment outDir tree done (invocation.run environment tree).failure later ∧
        (invocation.run environment tree).tree = later.tree := by
  obtain ⟨done, failure, later, ends, hexec⟩ := CompileRequest.run_ends hdir environment invocation.quiet tree
  have hsteps : (invocation.steps environment).run.run { build := { tree } } =
      (resultOf failure, later) := by
    rw [Invocation.steps, hcommand]
    exact hexec
  refine ⟨done, later.build, ?_, ?_⟩
  · have hfailure : (invocation.run environment tree).failure = failure := by
      rw [Invocation.run, hsteps]
      cases failure <;> rfl
    rwa [hfailure]
  · rw [Invocation.run, hsteps]

end Stache
