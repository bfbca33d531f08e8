import PullParse.Parser.Basic

/-!
# The entry point

A parse reads a fresh cache from its first token on, under settings of its own.
A match gives the value and success. A mismatch or a hard fault is raised, or
answered by the placeholder without success, as the settings say; every other
fault is raised. The settings that were active before are active again
afterwards, whatever happens.
-/

namespace PullParse.Parser

/-- The state at the first token, which is pulled at once. -/
def startState (userData : Value) : Run Context State := do
  let s : State := ⟨0, userData⟩
  let _ ← current s
  return s

/-- What a failed parse answers. -/
def failure (settings : Settings) (fault : Fault) : Run Context (Value × Bool) :=
  if settings.propagate.truth then Run.raise fault else return (settings.errorValue, false)

/-- The position of the last token that was read. -/
def lastPosition : Run Context Int := do
  let ctx ← Run.get
  return ctx.cache.length - 1

/-- A parse under resolved settings. -/
def parseUnder (settings : Settings) (p : Parser) : Run Context (Value × Bool) := do
  let start ← startState settings.userData
  Run.log (.started settings.userData)
  match ← (p start).attempt Fault.isHard with
  | .error fault =>
    Run.log (.aborted fault)
    Run.record false
    failure settings fault
  | .ok .noMatch =>
    Run.log .failed
    Run.record false
    let position ← lastPosition
    failure settings (.noMatch (.int position))
  | .ok (.matched value s) =>
    let ctx ← Run.get
    Run.log (.finished s.position ctx.cache.pulls)
    Run.record true
    return (value, true)

/-- Runs a parser on a fresh context. The settings are resolved before anything else happens. -/
def parse (p : Parser) (options : Options) (overrides : List (String × Value)) :
    Run Context (Value × Bool) := do
  let active ← Run.settings
  let settings ← Run.ofExcept (options.resolve active overrides)
  Run.withSettings settings (parseUnder settings p)

/-- A parse of another producer within a run. It shares the session and nothing else. -/
def nested (p : Parser) (producer : Producer) (options : Options)
    (overrides : List (String × Value)) : Parser := fun s => do
  let (value, success) ←
    (parse p options overrides).within (fun ctx => Context.opened producer ctx.session)
      (fun ctx inner => { ctx with session := inner.session })
  return .matched (.list [value, .bool success]) s

end PullParse.Parser
