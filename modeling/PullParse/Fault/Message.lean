import PullParse.Fault.Basic
import PullParse.Value.Display

/-!
# The texts of faults

Every fault has a message. Those of the parse fault and of the stalled
repetition begin with the position of the token at which they arose, if they
carry one.
-/

namespace PullParse

namespace FaultKind

/-- The name of a kind of fault. -/
def name : FaultKind → String
  | .parse => "ParseError"
  | .stalled => "RepetitionError"
  | .noMatch => "NoMatchError"
  | .general => "MonadParseError"
  | .badValue => "ValueError"

/-- The argument that a fault of this kind cannot do without. -/
def requiredArgument : FaultKind → Option String
  | .parse => some "reason"
  | .stalled => some "combinator"
  | .noMatch | .general | .badValue => none

/-- Making a fault counts the fault itself as an argument: the fewest and the most that a kind
takes. -/
def arity : FaultKind → Nat × Nat
  | .parse | .stalled => (2, 3)
  | .noMatch | .general | .badValue => (1, 2)

end FaultKind

namespace Fault

/-- Why a repetition stalled. -/
def stalledReason (combinator : Value) : String :=
  combinator.plainText ++ ": repeated parser succeeded without consuming a token"

/-- The reason of a hard fault. -/
def reason? : Fault → Option Value
  | .parse reason _ => some reason
  | .stalled combinator _ => some (.str (stalledReason combinator))
  | _ => none

/-- A text about a position, which is left out when there is none. -/
def located (before : String) (position : Value) (after : String) : String :=
  match position with
  | .null => ""
  | p => before ++ p.plainText ++ after

/-- The text of a fault that is known by its arguments alone. -/
def argumentText : List Value → String
  | [] => ""
  | [arg] => arg.plainText
  | args => (Value.tuple args).display

def message : Fault → String
  | .parse reason position => located "token " position ": " ++ reason.plainText
  | .stalled combinator position => located "token " position ": " ++ stalledReason combinator
  | .noMatch position => "input did not match the grammar" ++ located " at token " position ""
  | .general args | .badValue args => argumentText args
  | .badOperands operator => operator
  | .unknownName name => Text.quoted name
  | .tooFewParts found =>
    "not enough values to unpack (expected 2, got " ++ toString found ++ ")"
  | .tooManyParts => "too many values to unpack (expected 2)"
  | .notUnpackable kind => "cannot unpack non-iterable " ++ kind ++ " object"
  | .notIterable kind => "'" ++ kind ++ "' object is not iterable"
  | .outOfRange => "list index out of range"
  | .indexTooLarge => "cannot fit 'int' into an index-sized integer"
  | .sizeTooLarge => "Python int too large to convert to C ssize_t"
  | .outOfMemory => ""
  | .aheadOfCache position length =>
    "token position " ++ toString position ++ " is ahead of the cache end " ++ toString length
  | .emptyStack => "pop from empty user data"
  | .notSequence kind => "user data must be a sequence to push or pop, got " ++ kind
  | .unsized kind => "object of type '" ++ kind ++ "' has no len()"
  | .notInteger kind => "'" ++ kind ++ "' object cannot be interpreted as an integer"
  | .missingParsers 0 => "sequence() missing 2 required positional arguments: 'p' and 'm'"
  | .missingParsers _ => "sequence() missing 1 required positional argument: 'm'"
  | .unknownField record name =>
    record ++ ".__init__() got an unexpected keyword argument '" ++ name ++ "'"
  | .repeatedArgument function name =>
    function ++ "() got multiple values for argument '" ++ name ++ "'"
  | .notSettings kind => "'" ++ kind ++ "' object has no attribute 'initial_user_data'"
  | .notReplaceable => "replace() should be called on dataclass instances"
  | .notMapping kind => "'" ++ kind ++ "' object has no attribute 'items'"
  | .frozenField name => "cannot assign to field '" ++ name ++ "'"
  | .foreignField => "super(type, obj): obj must be an instance or subtype of type"
  | .missingArgument kind =>
    kind.name ++ ".__init__() missing 1 required positional argument: '" ++
      kind.requiredArgument.getD "" ++ "'"
  | .excessArguments kind given =>
    kind.name ++ ".__init__() takes from " ++ toString kind.arity.1 ++ " to " ++
      toString kind.arity.2 ++ " positional arguments but " ++ toString given ++ " were given"
  | .divisionByZero => "integer division or modulo by zero"

end Fault

end PullParse
