import PullParse.Parser.Repetition
import PullParse.Parser.Recursion
import PullParse.Parser.UserData

/-!
# Nesting depth

Balanced brackets, with the open ones on a stack in the user data. An opening
bracket pushes the depth that it opens, and its closing bracket pops it. The
value of a bracket pair is the greatest depth reached inside it, and that of the
program the greatest one over all pairs, or zero without any.
-/

namespace PullParse.Nesting

def openingClass : Value := .str "["

def closingClass : Value := .str "]"

/-- The size of the stack. User data that has no size is a fault. -/
def stackSize (data : Value) : Except Fault Nat :=
  match data.elements? with
  | none => .error (.unsized data.kind)
  | some es =>
    match es.size? with
    | some size => .ok size
    | none => .error .sizeTooLarge

/-- An opening bracket, which pushes its depth. The depth is known before the token is looked at. -/
def openBracket : Parser := fun s => do
  let size ← Run.ofExcept (stackSize s.userData)
  Parser.sequence (.is openingClass) (.pushUserData (.int (size + 1))) [] s

def closeBracket : Parser := .sequence (.is closingClass) .popUserData []

/-- The greater of two depths. -/
def deeper (depth v : Value) : Value :=
  match depth, v with
  | .int m, .int n => .int (max m n)
  | _, _ => depth

/-- The greatest of a depth and a list of depths. -/
def deepest (depth : Value) : Value → Value
  | .list depths => depths.foldl deeper depth
  | _ => depth

/-- A bracket pair, given the pairs inside it. -/
def pair (inner : Parser) : Parser :=
  openBracket.bind fun depth => inner.many.bind fun depths =>
    closeBracket.fmap fun _ => return deepest depth depths

def nested : Parser := .fix pair

def program : Parser :=
  nested.many.bind fun depths => Parser.getUserData.fmap fun _ => return deepest (.int 0) depths

/-- The producer of the characters of a text, each its own class and payload. -/
def producer (source : String) : Producer :=
  .ofElements (.listed (source.toList.map fun c =>
    .pair (.str (String.singleton c)) (.str (String.singleton c))))

end PullParse.Nesting
