import PullParse.Proofs.Entry.Conclusion

/-!
# Settings as they are installed

What a caller passes as options may be any value. It can be taken, replaced and
installed as the active settings without a look at its fields; only then is the first
field read, and a value that has none is found out. Installing puts back what was
active before, so the parse that finds out late leaves no more behind than the one
that resolves its settings before anything else.
-/

namespace PullParse

namespace Value

/-- What a parse makes its settings of, before the overrides. -/
def chosen (options active : Value) : Value :=
  match options with
  | .null => active
  | .dict entries => (Settings.ofEntries entries).toValue
  | v => v

/-- A record with some of its fields replaced. No other value has fields that can be replaced. -/
def replacing (v : Value) (changes : List (String × Value)) : Except Fault Value :=
  match v, changes with
  | v, [] => .ok v
  | .settings userData propagate errorValue guard, changes =>
    (Settings.override ⟨userData, propagate, errorValue, guard⟩ changes).map Settings.toValue
  | .token cls value, changes =>
    match changes.find? fun change => change.1 != "cls" && change.1 != "value" with
    | some (name, _) => .error (.wrongField (Value.token cls value).kind name)
    | none => .ok (.token ((changes.lookup "cls").getD cls) ((changes.lookup "value").getD value))
  | _, _ => .error .notReplaceable

/-- The fields of settings, which no other value has. -/
def fields : Value → Except Fault Settings
  | .settings userData propagate errorValue guard =>
    .ok ⟨userData, propagate, errorValue, guard⟩
  | v => .error (.notSettings v.kind)

end Value

/-- A context in which any value may stand as the active settings. -/
structure Installed where
  active : Value
  cache : Cache
  profiler : Profiler
  log : Array LogRecord
  journal : Array Event

/-- A context with its settings as a value. -/
def Context.installed (ctx : Context) : Installed :=
  ⟨ctx.session.settings.toValue, ctx.cache, ctx.session.profiler, ctx.session.log,
    ctx.session.journal⟩

namespace Installed

/-- The context of a run under some settings. -/
def context (settings : Settings) (i : Installed) : Context :=
  ⟨i.cache, ⟨settings, i.profiler, i.log, i.journal⟩⟩

/-- Runs with a value installed as the active settings, and puts the one from before back. -/
def installing {α : Type} (config : Value) (x : Run Installed α) : Run Installed α := do
  let old ← Run.get
  Run.modify fun i => { i with active := config }
  x.restoring fun i => { i with active := old.active }

end Installed

/-- Runs a parser under what has been passed as options, which is installed first and looked at
then. -/
def Parser.parseInstalling (p : Parser) (options : Value) (overrides : List (String × Value)) :
    Run Installed (Value × Bool) :=
  match overrides.find? fun change => Options.parameters.contains change.1 with
  | some (name, _) => Run.raise (.repeatedArgument "parse" name)
  | none => do
    let i ← Run.get
    let config ← Run.ofExcept ((options.chosen i.active).replacing overrides)
    Installed.installing config do
      let settings ← Run.ofExcept config.fields
      (parseUnder settings p).within (Installed.context settings) fun _ ctx => ctx.installed

namespace Value

theorem fields_replacing_settings (s : Settings) (changes : List (String × Value)) :
    (s.toValue.replacing changes).bind fields = s.override changes := by
  cases changes with
  | nil => rfl
  | cons change changes =>
      show ((s.override (change :: changes)).map Settings.toValue).bind fields = _
      cases s.override (change :: changes) with
      | error fault => rfl
      | ok c => rfl

/-- What the fields of the installed value are is what the options resolve to, and where there are
none the fault is the same. -/
theorem fields_replacing (options : Value) (active : Settings)
    (overrides : List (String × Value)) :
    ((options.chosen active.toValue).replacing overrides).bind fields =
      (Options.ofValue options).combine active overrides := by
  cases options with
  | null => exact fields_replacing_settings active overrides
  | dict entries => exact fields_replacing_settings (Settings.ofEntries entries) overrides
  | settings userData propagate errorValue guard =>
      exact fields_replacing_settings ⟨userData, propagate, errorValue, guard⟩ overrides
  | token cls value =>
      cases overrides with
      | nil => rfl
      | cons change changes =>
          simp only [chosen, replacing, Options.ofValue, Options.combine, Options.misuse]
          cases (change :: changes).find? fun change =>
              change.1 != "cls" && change.1 != "value" with
          | some found => rfl
          | none => rfl
  | _ =>
      cases overrides with
      | nil => rfl
      | cons change changes => rfl

end Value

/-! ## Installing and resolving -/

namespace Installed

/-- Installing leaves what was active before, however the run ends. -/
theorem run_installing {α : Type} (config : Value) (x : Run Installed α) (budget : Nat)
    (i : Installed) :
    (installing config x).run budget i =
      (x.run budget { i with active := config }).mapFinal fun i' =>
        { i' with active := i.active } := rfl

end Installed

namespace Parser

/-- A parse that installs first runs as one that resolves first. -/
theorem run_parseInstalling (p : Parser) (options : Value) (overrides : List (String × Value))
    (budget : Nat) (ctx : Context) :
    (p.parseInstalling options overrides).run budget ctx.installed =
      ((p.parse (.ofValue options) overrides).run budget ctx).mapFinal Context.installed := by
  have hfields := Value.fields_replacing options ctx.session.settings overrides
  rw [parseInstalling]
  cases hparameter : overrides.find? fun change => Options.parameters.contains change.1 with
  | some change =>
      have hresolve : (Options.ofValue options).resolve ctx.session.settings overrides =
          .error (.repeatedArgument "parse" change.1) := by
        rw [Options.resolve, hparameter]
      rw [parse_refused ctx hresolve]
      rfl
  | none =>
      have hresolve : (Options.ofValue options).resolve ctx.session.settings overrides =
          (Options.ofValue options).combine ctx.session.settings overrides := by
        rw [Options.resolve, hparameter]
      rw [← hfields] at hresolve
      show Ending.andThen
        (.ofExcept ((options.chosen ctx.session.settings.toValue).replacing overrides) _) _ = _
      cases hconfig : (options.chosen ctx.session.settings.toValue).replacing overrides with
      | error fault =>
          rw [hconfig] at hresolve
          rw [parse_refused ctx hresolve]
          rfl
      | ok config =>
          rw [hconfig] at hresolve
          show (Installed.installing config _).run budget ctx.installed = _
          rw [Installed.run_installing]
          cases hread : config.fields with
          | error fault =>
              -- the value is installed by now, and is put back as the fault goes on
              rw [parse_refused ctx (hresolve.trans hread)]
              rfl
          | ok settings =>
              rw [parse_resolved ctx (hresolve.trans hread)]
              show Ending.mapFinal _ (Ending.mapFinal _ ((parseUnder settings p).run budget
                (ctx.mapSession fun s => { s with settings := settings }))) = _
              cases (parseUnder settings p).run budget
                (ctx.mapSession fun s => { s with settings := settings }) <;> rfl

end Parser

end PullParse
