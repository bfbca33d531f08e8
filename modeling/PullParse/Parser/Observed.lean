import PullParse.Parser.Basic
import PullParse.Value.Display

/-!
# Observing a run

Parsers that consume nothing and match always, or that only mark in the journal
where another parser is entered and how it ends.
-/

namespace PullParse

/-- A state as a text. -/
def State.display (s : State) : String :=
  "ParseState(position=" ++ toString s.position ++ ", user_data=" ++ s.userData.display ++ ")"

/-- An outcome as a text. -/
def Outcome.display : Outcome → String
  | .noMatch => "NO_MATCH"
  | .matched value s => "Success(value=" ++ value.display ++ ", state=" ++ s.display ++ ")"

/-- The event that tells how a traced parser ended. -/
def Outcome.event (id : Value) : Outcome → Event
  | .matched value s => .matched id s.position value
  | .noMatch => .unmatched id

namespace Parser

/-- Marks the entry of `p` and its end. A fault is marked and goes on. -/
def traced (id : Value) (p : Parser) : Parser := fun s => do
  Run.write (.enter id s.position)
  match ← (p s).attempt fun _ => true with
  | .ok outcome =>
    Run.write (outcome.event id)
    return outcome
  | .error fault =>
    Run.write (.raised id fault)
    Run.raise fault

/-- Matches with the active settings. -/
def activeSettings : Parser := fun s => do
  let settings ← Run.settings
  return .matched settings.toValue s

/-- Replaces fields of the active settings. -/
def changeSettings (changes : List (String × Value)) : Parser := fun s => do
  let settings ← Run.settings
  let changed ← Run.ofExcept (settings.override changes)
  Run.setSettings changed
  return .matched .null s

/-- Matches with the text of the state. -/
def stateText : Parser := fun s => pure (.matched (.str s.display) s)

end Parser

end PullParse
