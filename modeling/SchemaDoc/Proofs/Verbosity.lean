import SchemaDoc.Cli.Run
import SchemaDoc.Proofs.Logs
import SchemaDoc.Proofs.Rendering
import SchemaDoc.Proofs.Rules

/-!
# Verbosity does not interfere

Whether a run is verbose shows on the error channel and nowhere else.

A run hands its log through all its stages: the configuration is found, the modules are indexed, the
document is rendered, and each stage reports on the way. A verbose log and a quiet one are different
after the first report, so two runs would have to be followed side by side through everything. That
is avoided by saying of one stage what it does to *every* log: it **ignores** the log if it always
gives the same, and adds the same messages. For evaluation this is `Eval.IgnoresLog`, which is a rule of
rendering; for the index it is `ModuleIndex.Builder.IgnoresLog`, for a step of a run
`Cli.Step.IgnoresLog`. The stage after it may then get any log at all.

A quiet log takes no messages. So there is nothing on the error channel of a quiet run but how the
program is used.
-/

namespace SchemaDoc

theorem Log.addAll_of_quiet {log : Log} (h : log.verbose = false) (messages : List Log.Entry) :
    log.addAll messages = log := by
  induction messages with
  | nil => rfl
  | cons m messages ih =>
    have hadd : log.add m.level m.message = log := by
      rw [Log.add, h]
      rfl
    rw [Log.addAll, List.foldl_cons, hadd]
    exact ih

/-! ### Documents -/

theorem Document.entryProgram_ignoresLog (env : Environment) (s : Session) :
    Eval.IgnoresLog env entryProgram s := by
  have hindex {f : ModuleIndex → Eval Program} (hx : Eval.IgnoresLog env (f env.index) s) :
      Eval.IgnoresLog env (Eval.index >>= f) s := hx
  refine hindex ?_
  split
  · exact .pure _
  · exact .stop _

/-- Ignoring the log is a rule of rendering. -/
def ignoringLog (env : Environment) : Rule env where
  Holds x s := Eval.IgnoresLog env x s
  pure := .pure
  stop := .stop
  bind := .bind
  entry _ hf := .bind (Document.entryProgram_ignoresLog env _) hf
  config hx := hx
  warn := .warn
  info := .info
  request r := request_ignoresLog env r _

/-- **Rendering ignores the log**, also if it has no end. -/
theorem Document.render_ignoresLog (env : Environment) (s : Session) :
    (∀ log, render env { s with log } = none) ∨
      ∃ (result : Except Stop String) (s' : Session) (messages : List Log.Entry), ∀ log,
        render env { s with log } = some (result, { s' with log := log.addAll messages }) := by
  have hrender (fuel : Nat) : Eval.IgnoresLog env (renderWithin fuel) s :=
    (ignoringLog env).renderWithin (entryProgram_ignoresLog env) fuel s
  by_cases hended : ∃ fuel log, (renderWithin fuel env { s with log }).1 ≠ .error .exhausted
  · right
    obtain ⟨fuel, log₀, hended⟩ := hended
    obtain ⟨result, s', messages, hrun⟩ := hrender fuel
    refine ⟨result, s', messages, fun log => ?_⟩
    rw [hrun log₀] at hended
    have hended' : (renderWithin fuel env { s with log }).1 ≠ .error .exhausted := by
      rw [hrun log]
      exact hended
    rw [render_eq_some hended', hrun log]
  · left
    intro log
    cases hsome : render env { s with log } with
    | none => rfl
    | some result =>
      obtain ⟨fuel, rfl, hne⟩ := render_eq_some_iff.mp hsome
      exact absurd ⟨fuel, log, hne⟩ hended

/-! ### The index -/

namespace ModuleIndex

/-- A step in building an index ignores the log: it builds the same and reports the same. -/
def Builder.IgnoresLog (step : Builder → Builder) : Prop :=
  ∀ b : Builder, ∃ (b' : Builder) (messages : List Log.Entry), ∀ log : Log,
    step { b with log } = { b' with log := log.addAll messages }

namespace Builder.IgnoresLog

theorem refl : IgnoresLog id := fun b => ⟨b, [], fun _ => rfl⟩

theorem comp {step step' : Builder → Builder} (h : IgnoresLog step) (h' : IgnoresLog step') :
    IgnoresLog (step' ∘ step) := by
  intro b
  obtain ⟨b', messages, h⟩ := h b
  obtain ⟨b'', more, h'⟩ := h' b'
  refine ⟨b'', messages ++ more, fun log => ?_⟩
  rw [Function.comp_apply, h, h', Log.addAll_append]

theorem addLink (importer : ModuleId) (specifier : String) (link : Link) :
    IgnoresLog (·.addLink importer specifier link) :=
  fun b => ⟨b.addLink importer specifier link, [], fun _ => rfl⟩

theorem addModule (importer : ModuleId) (specifier : String) (path : Path)
    (place : FileSystem.Place) (source : ModuleSource) (requires : List String) :
    IgnoresLog (·.addModule importer specifier path place source requires) :=
  fun b => ⟨b.addModule importer specifier path place source requires,
    [⟨.info, s!"indexed module {path}"⟩], fun _ => rfl⟩

theorem followTo (fs : FileSystem) (importer : ModuleId) (specifier : String) (path : Path)
    (place : FileSystem.Place) : IgnoresLog (·.followTo fs importer specifier path place) := by
  intro b
  simp only [Builder.followTo]
  split
  next id _ => exact addLink importer specifier (.loaded id) b
  next =>
    split
    next source requires _ => exact addModule importer specifier path place source requires b
    next reason _ => exact addLink importer specifier (.failed reason) b

theorem follow (fs : FileSystem) (importer : ModuleId) (specifier : String) :
    IgnoresLog (Builder.follow fs importer · specifier) := by
  intro b
  simp only [Builder.follow]
  split
  next => exact refl b
  next =>
    split
    next => exact addLink importer specifier (.failed .notFound) b
    next path _ => exact followTo fs importer specifier path _ b

theorem followSpecifiers (fs : FileSystem) (importer : ModuleId) (specifiers : List String) :
    IgnoresLog (specifiers.foldl (Builder.follow fs importer)) := by
  induction specifiers with
  | nil => exact refl
  | cons specifier specifiers ih => exact (follow fs importer specifier).comp ih

theorem followAll (fs : FileSystem) (fuel : Nat) : IgnoresLog (Builder.followAll fs fuel) := by
  induction fuel with
  | zero => exact refl
  | succ fuel ih =>
    intro b
    simp only [Builder.followAll]
    split
    next => exact refl b
    next importer specifiers queue _ =>
      exact (followSpecifiers fs importer specifiers).comp ih { b with queue }

end Builder.IgnoresLog

/-- **The index of a text ignores the log.** -/
theorem ofText_ignoresLog (fs : FileSystem) (text : String) (path : Path) :
    (∃ e, ∀ log, ofText fs text path log = .error e) ∨
      ∃ index messages, ∀ log, ofText fs text path log = .ok (index, log.addAll messages) := by
  unfold ofText
  split
  next failure _ => exact .inl ⟨_, fun _ => rfl⟩
  next parsed _ =>
    obtain ⟨b, messages, hb⟩ := Builder.IgnoresLog.followAll fs (fs.nodes.length + 1)
      { index := { modules := [{ path, source := .script parsed.program.reattach }], links := [] }
        places := ((fs.canonical? path).map fun place => (place, 0)).toList
        queue := [(0, parsed.requires)]
        log := .empty false }
    refine .inr ⟨b.index, messages, fun log => ?_⟩
    dsimp only
    rw [hb log]

end ModuleIndex

/-! ### Runs -/

namespace Cli

/-- A step of a run ignores the log: it gives the same and reports the same. -/
def Step.IgnoresLog {α : Type} (x : Step α) : Prop :=
  ∃ (result : Except Stop α) (messages : List Log.Entry), ∀ log,
    x log = (result, log.addAll messages)

namespace Step.IgnoresLog

variable {α β : Type}

theorem pure (a : α) : IgnoresLog (Pure.pure a) := ⟨.ok a, [], fun _ => rfl⟩

theorem info (message : String) : IgnoresLog (Step.info message) :=
  ⟨.ok (), [⟨.info, message⟩], fun _ => rfl⟩

theorem ofExcept (r : Except Error α) : IgnoresLog (Step.ofExcept r) := by
  cases r with
  | ok a => exact .pure a
  | error e => exact ⟨.error (.error e), [], fun _ => rfl⟩

theorem bind {x : Step α} {f : α → Step β} (hx : IgnoresLog x) (hf : ∀ a, IgnoresLog (f a)) :
    IgnoresLog (x >>= f) := by
  obtain ⟨result, messages, hx⟩ := hx
  have hrun (log : Log) :
      (x >>= f) log = ExceptT.bindCont f result (log.addAll messages) := by
    change ExceptT.bindCont f (x log).1 (x log).2 = _
    rw [hx]
  cases result with
  | error reason => exact ⟨.error reason, messages, hrun⟩
  | ok a =>
    obtain ⟨result, more, hf⟩ := hf a
    refine ⟨result, messages ++ more, fun log => ?_⟩
    rw [hrun, Log.addAll_append]
    exact hf _

end Step.IgnoresLog

theorem findConfig_ignoresLog (fs : FileSystem) (args : Arguments) (path : Path) :
    (findConfig fs args path).IgnoresLog := by
  unfold findConfig
  split
  next file _ => exact (Step.IgnoresLog.info _).bind fun _ => .ofExcept _
  next =>
    refine (Step.IgnoresLog.ofExcept _).bind fun found => ?_
    dsimp only
    split
    next file _ => exact (Step.IgnoresLog.info _).bind fun _ => .pure _
    next => exact (Step.IgnoresLog.info _).bind fun _ => .pure _

theorem run_buildIndex (fs : FileSystem) (input : Input) (log : Log) :
    buildIndex fs input log =
      match ModuleIndex.ofText fs input.text input.path log with
      | .ok (index, log') => (.ok index, log'.info s!"{index.modules.length} module(s) indexed")
      | .error e => (.error (.error e), log) := by
  change (Step.ofExcept (ModuleIndex.ofText fs input.text input.path log) >>= _) log = _
  cases ModuleIndex.ofText fs input.text input.path log with
  | ok found => rfl
  | error e => rfl

theorem buildIndex_ignoresLog (fs : FileSystem) (input : Input) :
    (buildIndex fs input).IgnoresLog := by
  rcases ModuleIndex.ofText_ignoresLog fs input.text input.path with
    ⟨e, herror⟩ | ⟨index, messages, hok⟩
  · refine ⟨.error (.error e), [], fun log => ?_⟩
    rw [run_buildIndex, herror]
    rfl
  · refine ⟨.ok index,
      messages ++ [⟨.info, s!"{index.modules.length} module(s) indexed"⟩], fun log => ?_⟩
    rw [run_buildIndex, hok, Log.addAll_append]
    rfl

theorem rendering_ignoresLog (index : ModuleIndex) (config : Config) :
    (Step.ofEval index config Document.render).IgnoresLog := by
  rcases Document.render_ignoresLog { index, config } (Session.start (.empty false)) with
    hnone | ⟨result, s', messages, hsome⟩
  · refine ⟨.error .exhausted, [], fun log => ?_⟩
    have hlog : Document.render { index, config } (Session.start log) = none := hnone log
    rw [Step.ofEval, hlog]
    rfl
  · refine ⟨result, messages, fun log => ?_⟩
    have hlog : Document.render { index, config } (Session.start log) = _ := hsome log
    rw [Step.ofEval, hlog]

theorem document_ignoresLog (fs : FileSystem) (args : Arguments) (input : Input) :
    (document fs args input).IgnoresLog :=
  (findConfig_ignoresLog fs args input.path).bind fun config =>
    (buildIndex_ignoresLog fs input).bind fun index => rendering_ignoresLog index config

/-- What two runs have in common that differ in how verbose they are, and what a quiet one reports
at most. -/
theorem run_verbose (fs : FileSystem) (standardInput : String) (args : Arguments) :
    let loud := run fs standardInput { args with verbose := true }
    let quiet := run fs standardInput { args with verbose := false }
    loud.output = quiet.output ∧ loud.status = quiet.status ∧
      (quiet.errors = "" ∨ quiet.errors = usage ++ "\n") := by
  have hread (verbose : Bool) : readInput fs standardInput { args with verbose } =
      readInput fs standardInput args := rfl
  have hdocument (verbose : Bool) (input : Input) : document fs { args with verbose } input =
      document fs args input := rfl
  simp only [run, hread, hdocument]
  split
  next => exact ⟨rfl, rfl, .inl rfl⟩
  next =>
    split
    next => exact ⟨rfl, rfl, .inl rfl⟩
    next => exact ⟨rfl, rfl, .inr rfl⟩
    next input _ =>
      obtain ⟨result, messages, hrun⟩ := document_ignoresLog fs args input
      have hquiet : (Log.empty false).addAll messages = .empty false :=
        Log.addAll_of_quiet rfl messages
      rw [hrun, hrun, hquiet]
      cases result with
      | ok text => exact ⟨rfl, rfl, .inl rfl⟩
      | error reason => exact ⟨rfl, rfl, .inl rfl⟩

/-- A line that a log would have written. -/
def IsReport (line : List Char) : Prop :=
  "warning:".toList <+: line ∨ "info:".toList <+: line
deriving Decidable

/-- **Verbosity does not interfere.** For every run, being verbose changes neither the output nor
how the run ends, and a run that is not verbose reports nothing. This is so because no stage reads the
log: neither the value of a request nor the text of a document depends on how verbose the log is and
on what it has recorded. -/
theorem verbosity_does_not_interfere :
    (∀ (fs : FileSystem) (standardInput : String) (args : Arguments),
      let loud := run fs standardInput { args with verbose := true }
      let quiet := run fs standardInput { args with verbose := false }
      loud.output = quiet.output ∧ loud.status = quiet.status ∧
        ∀ line ∈ Description.lines quiet.errors.toList, ¬IsReport line) ∧
    (∀ (env : Environment) (r : Request) (s : Session) (log : Log),
      SameButLog (r.run env { s with log }) (r.run env s)) ∧
    (∀ (env : Environment) (s : Session) (log : Log),
      (Document.render env { s with log }).map Prod.fst =
        (Document.render env s).map Prod.fst) := by
  refine ⟨fun fs standardInput args => ?_, fun env r s log => ?_, fun env s log => ?_⟩
  · obtain ⟨houtput, hstatus, herrors⟩ := run_verbose fs standardInput args
    refine ⟨houtput, hstatus, fun line hline => ?_⟩
    rcases herrors with herrors | herrors <;>
      · rw [herrors] at hline
        revert line
        decide
  · exact request_sameButLog env r rfl
  · rcases Document.render_ignoresLog env s with hnone | ⟨result, s', messages, hsome⟩
    · have hs : Document.render env s = none := hnone s.log
      rw [hs, hnone]
    · have hs : Document.render env s = _ := hsome s.log
      rw [hs, hsome]
      rfl

end Cli

end SchemaDoc
