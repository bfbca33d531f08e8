import PullParse.Action
import PullParse.Value.Equality

/-!
# Expressions

Callbacks written as data: expressions over variables, and functions, which are
expressions with parameters. An expression is evaluated from left to right; it
may leave notes and raise faults. Operators are defined on operands of their own
kind only, where a truth value is not a number.
-/

namespace PullParse

/-- The values of variables, the innermost binding first. -/
abbrev Bindings : Type := List (String × Value)

inductive Expr where
  | literal (v : Value)
  | variable (name : String)
  | list (es : List Expr)
  | tuple (es : List Expr)
  | ite (condition a b : Expr)
  | not (e : Expr)
  | equal (a b : Expr)
  | add (a b : Expr)
  | sub (a b : Expr)
  | mul (a b : Expr)
  | less (a b : Expr)
  | length (e : Expr)
  | sum (e : Expr)
  | lower (e : Expr)
  | isText (e : Expr)
  /-- Leaves its value as a note. -/
  | log (e : Expr)
  | raise (fault : Fault)

/-- An expression with parameters. -/
structure Function where
  params : List String
  body : Expr

namespace Expr

/-- Numbers are added, texts and lists are joined. -/
def sumOf : Value → Value → Except Fault Value
  | .int m, .int n => .ok (.int (m + n))
  | .str s, .str t => .ok (.str (s ++ t))
  | .list xs, .list ys => .ok (.list (xs ++ ys))
  | _, _ => .error (.badOperands "add")

def differenceOf : Value → Value → Except Fault Value
  | .int m, .int n => .ok (.int (m - n))
  | _, _ => .error (.badOperands "sub")

def productOf : Value → Value → Except Fault Value
  | .int m, .int n => .ok (.int (m * n))
  | _, _ => .error (.badOperands "mul")

def comparisonOf : Value → Value → Except Fault Value
  | .int m, .int n => .ok (.bool (m < n))
  | _, _ => .error (.badOperands "lt")

/-- The number of characters of a text or of elements of a list or tuple. -/
def lengthOf : Value → Except Fault Value
  | .str s => .ok (.int s.length)
  | .list xs | .tuple xs => .ok (.int xs.length)
  | _ => .error (.badOperands "len")

/-- The sum of a list of numbers. -/
def totalOf : Value → Except Fault Value
  | .list xs => xs.foldlM sumNumber (.int 0)
  | _ => .error (.badOperands "sum")
where
  sumNumber : Value → Value → Except Fault Value
    | .int m, .int n => .ok (.int (m + n))
    | _, _ => .error (.badOperands "sum")

/-- A text with its ASCII letters in lower case. -/
def lowered : Value → Except Fault Value
  | .str s => .ok (.str (s.map Char.toLower))
  | _ => .error (.badOperands "lower")

def isStr : Value → Bool
  | .str _ => true
  | _ => false

/-- The value of a variable. -/
def find (bindings : Bindings) (name : String) : Except Fault Value :=
  match bindings.lookup name with
  | some v => .ok v
  | none => .error (.unknownName name)

mutual

def eval (bindings : Bindings) : Expr → Action Value
  | .literal v => pure v
  | .variable name => .ofExcept (find bindings name)
  | .list es => return .list (← evalAll bindings es)
  | .tuple es => return .tuple (← evalAll bindings es)
  | .ite condition a b => do
    if (← eval bindings condition).truth then eval bindings a else eval bindings b
  | .not e => return .bool (!(← eval bindings e).truth)
  | .equal a b => do
    let x ← eval bindings a
    let y ← eval bindings b
    return .bool (x.equal y)
  | .add a b => do
    let x ← eval bindings a
    let y ← eval bindings b
    .ofExcept (sumOf x y)
  | .sub a b => do
    let x ← eval bindings a
    let y ← eval bindings b
    .ofExcept (differenceOf x y)
  | .mul a b => do
    let x ← eval bindings a
    let y ← eval bindings b
    .ofExcept (productOf x y)
  | .less a b => do
    let x ← eval bindings a
    let y ← eval bindings b
    .ofExcept (comparisonOf x y)
  | .length e => do .ofExcept (lengthOf (← eval bindings e))
  | .sum e => do .ofExcept (totalOf (← eval bindings e))
  | .lower e => do .ofExcept (lowered (← eval bindings e))
  | .isText e => return .bool (isStr (← eval bindings e))
  | .log e => do
    let v ← eval bindings e
    Action.note v
    return v
  | .raise fault => Action.raise fault

def evalAll (bindings : Bindings) : List Expr → Action (List Value)
  | [] => pure []
  | e :: es => do
    let v ← eval bindings e
    let vs ← evalAll bindings es
    return v :: vs

end

end Expr

/-- Evaluates the body with the parameters bound, on top of the bindings around it. -/
def Function.apply (f : Function) (bindings : Bindings) (args : List Value) : Action Value :=
  f.body.eval ((f.params.zip args).reverse ++ bindings)

end PullParse
