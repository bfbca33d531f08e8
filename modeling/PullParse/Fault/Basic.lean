import PullParse.Value.Basic

/-!
# Faults

A fault ends a run at once: no alternative is tried after it. The library's own
faults are the parse fault that a grammar asks for, the stalled repetition and
the failed top-level match; the first two are hard, which means that a run may
turn them into a placeholder result. Every other fault names a misuse: a token
that is not a pair, a stack that is empty, a setting that does not exist.
-/

namespace PullParse

/-- The kinds of fault that a callback can ask for by name. -/
inductive FaultKind where
  | parse
  | stalled
  | noMatch
  | general
  | badValue
  deriving DecidableEq

inductive Fault where
  | parse (reason position : Value)
  | stalled (combinator position : Value)
  | noMatch (position : Value)
  | general (args : List Value)
  | badValue (args : List Value)
  /-- An operator met operands of a kind that it is not defined on. -/
  | badOperands (operator : String)
  /-- A variable, a rule or a register that there is none of. -/
  | unknownName (name : String)
  | tooFewParts (found : Nat)
  | tooManyParts
  | notUnpackable (kind : String)
  | notIterable (kind : String)
  | outOfRange
  /-- A number was used as an index that does not fit into a machine word. -/
  | indexTooLarge
  /-- The size of a collection was asked for that does not fit into a machine word. -/
  | sizeTooLarge
  /-- Memory has run out, which only a callback can raise: here it has no end. -/
  | outOfMemory
  | aheadOfCache (position : Int) (length : Nat)
  | emptyStack
  | notSequence (kind : String)
  | unsized (kind : String)
  | notInteger (kind : String)
  /-- A sequence was asked for with `given` parsers, fewer than two. -/
  | missingParsers (given : Nat)
  /-- A record was asked for with a field that it does not have. -/
  | unknownField (record name : String)
  /-- A function was given an argument by name that it already had. -/
  | repeatedArgument (function name : String)
  | notSettings (kind : String)
  | notReplaceable
  | notMapping (kind : String)
  | frozenField (name : String)
  /-- A name was assigned to that is not a field of the record. -/
  | foreignField
  | missingArgument (kind : FaultKind)
  | excessArguments (kind : FaultKind) (given : Nat)
  | divisionByZero

namespace Fault

/-- The fault of a kind with the given arguments. The parse and the stalled fault need their first
one, and only the general kinds take any number. -/
def make : FaultKind → List Value → Except Fault Fault
  | .parse, [reason] => .ok (.parse reason .null)
  | .parse, [reason, position] => .ok (.parse reason position)
  | .stalled, [combinator] => .ok (.stalled combinator .null)
  | .stalled, [combinator, position] => .ok (.stalled combinator position)
  | .noMatch, [] => .ok (.noMatch .null)
  | .noMatch, [position] => .ok (.noMatch position)
  | .general, args => .ok (.general args)
  | .badValue, args => .ok (.badValue args)
  | kind, [] => .error (.missingArgument kind)
  | kind, args => .error (.excessArguments kind (args.length + 1))

/-- The fault of making a record with a name that is not one of its fields. The record itself goes
by a name, too. -/
def wrongField (record name : String) : Fault :=
  if name == "self" then .repeatedArgument (record ++ ".__init__") name
  else .unknownField record name

/-- The parse fault and the stalled repetition are hard: a run may answer them with its
placeholder result. -/
def isHard : Fault → Bool
  | .parse _ _ | .stalled _ _ => true
  | _ => false

/-- The faults that the library itself defines. -/
def isLibrary : Fault → Bool
  | .parse _ _ | .stalled _ _ | .noMatch _ | .general _ => true
  | _ => false

/-- The position that a fault carries; null if it was made without one. -/
def position? : Fault → Option Value
  | .parse _ position | .stalled _ position | .noMatch position => some position
  | _ => none

end Fault

end PullParse
