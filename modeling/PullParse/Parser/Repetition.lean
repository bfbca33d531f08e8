import PullParse.Parser.Basic

/-!
# Repetition

The repetitions run a parser until it no longer matches. A round that consumes
nothing would be repeated for ever; while the guard is active such a round
stalls the repetition, which is a hard fault. The guard is read once: when the
repetition starts, or after its first match where that match is mandatory and
not guarded.
-/

namespace PullParse.Parser

/-- Whether the active settings guard repetitions. -/
def guarded : Run Context Bool := do
  let settings ← Run.settings
  return settings.guard.truth

/-- The fault of the repetition `name` in a round that consumed nothing. -/
def stall (name : String) (s : State) : Fault := .stalled (.str name) (.int s.position)

/-- Whether a round from one state to another is refused. -/
def stalls (guard : Bool) (s s' : State) : Bool := guard && s'.position == s.position

/-- The rounds of a repetition: the values, after the ones collected so far, which are kept newest
first, and the state after the last match. -/
def rounds (name : String) (guard : Bool) (p : Parser) :
    Nat → State → List Value → Run Context (List Value × State)
  | 0, _, _ => Run.unfinished
  | left + 1, s, collected => do
    match ← p s with
    | .noMatch => return (collected.reverse, s)
    | .matched value s' =>
      if stalls guard s s' then Run.raise (stall name s)
      else rounds name guard p left s' (value :: collected)

/-- Repeats `p` from a state on. -/
def repeated (name : String) (p : Parser) (s : State) : Run Context (List Value × State) := do
  let guard ← guarded
  Run.withBudget fun budget => rounds name guard p budget s []

/-- Matches `p` as often as it matches, with the list of its values. -/
def many (p : Parser) : Parser := fun s => do
  let (values, s') ← repeated "many" p s
  return .matched (.list values) s'

/-- Like `many`, but `p` has to match at least once. -/
def many1 (p : Parser) : Parser := fun s => do
  match ← p s with
  | .noMatch => return .noMatch
  | .matched first s' =>
    let (values, s'') ← repeated "many1" p s'
    return .matched (.list (first :: values)) s''

/-- Like `many`, without the values. -/
def skipMany (p : Parser) : Parser := fun s => do
  let (_, s') ← repeated "skip_many" p s
  return .matched .null s'

/-- Like `many1`, without the values. -/
def skipMany1 (p : Parser) : Parser := fun s => do
  match ← p s with
  | .noMatch => return .noMatch
  | .matched _ s' =>
    let (_, s'') ← repeated "skip_many1" p s'
    return .matched .null s''

/-- The rounds of `manyUntil`: the terminator is tried first in every round. -/
def roundsUntil (guard : Bool) (p terminator : Parser) :
    Nat → State → List Value → Run Context Outcome
  | 0, _, _ => Run.unfinished
  | left + 1, s, collected => do
    match ← terminator s with
    | .matched _ s' => return .matched (.list collected.reverse) s'
    | .noMatch =>
      match ← p s with
      | .noMatch => return .noMatch
      | .matched value s' =>
        if stalls guard s s' then Run.raise (stall "many_until" s)
        else roundsUntil guard p terminator left s' (value :: collected)

/-- Repeats `p` until the terminator matches, which is consumed and left out of the list. -/
def manyUntil (p terminator : Parser) : Parser := fun s => do
  let guard ← guarded
  Run.withBudget fun budget => roundsUntil guard p terminator budget s []

/-- The rounds of `sepBy1` after its first match: a separator without a `p` behind it is given
back. -/
def roundsSeparated (guard : Bool) (p sep : Parser) :
    Nat → State → List Value → Run Context Outcome
  | 0, _, _ => Run.unfinished
  | left + 1, s, collected => do
    match ← sep s with
    | .noMatch => return .matched (.list collected.reverse) s
    | .matched _ between =>
      match ← p between with
      | .noMatch => return .matched (.list collected.reverse) s
      | .matched value s' =>
        if stalls guard s s' then Run.raise (stall "sep_by1" s)
        else roundsSeparated guard p sep left s' (value :: collected)

/-- One or more `p` with separators between them; the list holds the values of `p`. -/
def sepBy1 (p sep : Parser) : Parser := fun s => do
  match ← p s with
  | .noMatch => return .noMatch
  | .matched first s' =>
    let guard ← guarded
    Run.withBudget fun budget => roundsSeparated guard p sep budget s' [first]

/-- Like `sepBy1`, or the empty list where `p` does not match. -/
def sepBy (p sep : Parser) : Parser := either (sepBy1 p sep) (Parser.pure (.list []))

/-- The remaining rounds of a count. -/
def countRounds (p : Parser) : Nat → State → List Value → Run Context Outcome
  | 0, s, collected => return .matched (.list collected.reverse) s
  | left + 1, s, collected => do
    match ← p s with
    | .noMatch => return .noMatch
    | .matched value s' => countRounds p left s' (value :: collected)

/-- Matches `p` exactly `n` times; a negative count is none. -/
def count (n : Int) (p : Parser) : Parser := fun s => countRounds p n.toNat s []

end PullParse.Parser
