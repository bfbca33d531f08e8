import PullParse.Run.Context
import PullParse.Value.Equality

/-!
# Parsers

A parser runs on a state, a position in the token cache together with user
data, and matches with a value and a new state or does not match. States are
plain values, so going back to an earlier state is running another parser on it.
A parser that does not match leaves no state behind; a fault is not a mismatch
and is never gone back over.
-/

namespace PullParse

structure State where
  position : Int
  userData : Value

inductive Outcome where
  | matched (value : Value) (state : State)
  | noMatch

/-- Whether an outcome is a match. -/
def Outcome.isMatch : Outcome → Bool
  | .matched _ _ => true
  | .noMatch => false

abbrev Parser : Type := State → Run Context Outcome

namespace Parser

/-- The token at a state. -/
def current (s : State) : Run Context Token := Run.tokenAt s.position

/-- The state one token further on; the end token is never passed. -/
def advance (s : State) : Run Context State := do
  let token ← current s
  return if token.isEof then s else { s with position := s.position + 1 }

/-! ## Single tokens -/

/-- Matches one token whose class passes the test, with its payload as the value. -/
def satisfy (test : Value → Action Bool) : Parser := fun s => do
  let token ← current s
  if ← Run.perform (test token.cls) then
    let next ← advance s
    return .matched token.value next
  else
    return .noMatch

def isEndClass : Value → Bool
  | .null => true
  | _ => false

/-- Matches every token but the end. -/
def anyToken : Parser := satisfy fun cls => return !isEndClass cls

/-- Matches the end alone. -/
def eof : Parser := satisfy fun cls => return isEndClass cls

/-- Matches a token whose class relates to `cls`. -/
def isWith (cls : Value) (test : Value → Value → Action Bool) : Parser :=
  satisfy fun current => test current cls

/-- Matches a token whose class equals `cls`. -/
def is (cls : Value) : Parser := isWith cls fun a b => return a.equal b

/-! ## Chaining -/

/-- Matches with a value in place. -/
protected def pure (value : Value) : Parser := fun s => return .matched value s

/-- Runs `p`, and then the parser that its value selects. -/
protected def bind (p : Parser) (f : Value → Parser) : Parser := fun s => do
  match ← p s with
  | .matched value s' => f value s'
  | .noMatch => return .noMatch

/-- Runs two parsers one after the other and keeps the value of the second. -/
def andThen (p q : Parser) : Parser := fun s => do
  match ← p s with
  | .matched _ s' => q s'
  | .noMatch => return .noMatch

/-- Runs two or more parsers one after the other and keeps the value of the last. -/
def sequence (p q : Parser) (rest : List Parser) : Parser :=
  rest.foldl andThen (andThen p q)

/-- Performs an action and runs the parser that is its result. -/
def ofAction (x : Action Parser) : Parser := fun s => do
  let p ← Run.perform x
  p s

/-- Applies a function to the value of `p`. -/
def fmap (f : Value → Action Value) (p : Parser) : Parser :=
  p.bind fun value => ofAction (return Parser.pure (← f value))

/-- Leaves notes before `p` runs. -/
def noting (notes : List Value) (p : Parser) : Parser := fun s => do
  Run.perform ⟨notes, .ok ()⟩
  p s

/-- Breaks the run off. -/
def raise (fault : Fault) : Parser := fun _ => Run.raise fault

/-- Breaks the run off with a parse fault at the current position. -/
def fail (reason : Value) : Parser := fun s => Run.raise (.parse reason (.int s.position))

/-! ## Looking ahead and choosing -/

/-- Matches where `p` does, with its value, and stays in place. -/
def lookahead (p : Parser) : Parser := fun s => do
  match ← p s with
  | .matched value _ => return .matched value s
  | .noMatch => return .noMatch

/-- Matches with null where `p` does not match, and stays in place. -/
def notFollowedBy (p : Parser) : Parser := fun s => do
  match ← p s with
  | .matched _ _ => return .noMatch
  | .noMatch => return .matched .null s

/-- Runs `p`, and `q` from the same state if `p` does not match. -/
def either (p q : Parser) : Parser := fun s => do
  match ← p s with
  | .matched value s' => return .matched value s'
  | .noMatch => q s

/-- Matches with a default where `p` does not match. -/
def opt (default : Value) (p : Parser) : Parser := either p (Parser.pure default)

/-- Drops the value of `p`. -/
def ignore (p : Parser) : Parser := andThen p (Parser.pure .null)

/-- Takes what `p` matches, if anything, and drops its value. -/
def maybe (p : Parser) : Parser := opt .null (ignore p)

/-- Runs `p` between an opening and a closing parser and keeps its value. -/
def between (opening closing p : Parser) : Parser :=
  opening.bind fun _ => p.bind fun value => andThen closing (Parser.pure value)

end Parser

end PullParse
