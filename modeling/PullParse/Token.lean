import PullParse.Fault.Basic
import PullParse.Value.Elements

/-!
# Tokens

A token has a class, which parsers test, and a payload, which they hand on. The
null class marks the end of the input. A producer answers with tokens or with
pairs; any collection of exactly two elements serves as a pair.
-/

namespace PullParse

structure Token where
  cls : Value
  value : Value

namespace Token

/-- The token that ends every stream which does not bring an end token of its own. -/
def eof : Token := ⟨.null, .null⟩

def isEof (t : Token) : Bool :=
  match t.cls with
  | .null => true
  | _ => false

def toValue (t : Token) : Value := .token t.cls t.value

/-- The class and the payload as a pair. -/
def toPair (t : Token) : Value := .pair t.cls t.value

/-- Takes a collection apart into its two elements. -/
def ofParts : List Value → Except Fault Token
  | [cls, value] => .ok ⟨cls, value⟩
  | [] => .error (.tooFewParts 0)
  | [_] => .error (.tooFewParts 1)
  | _ => .error .tooManyParts

/-- The token that an answer stands for. Three elements are enough to see that there are too
many. -/
def ofPair : Value → Except Fault Token
  | .token cls value => .ok ⟨cls, value⟩
  | v =>
    match v.elements? with
    | none => .error (.notUnpackable v.kind)
    | some es => ofParts (es.take 3)

end Token

end PullParse
