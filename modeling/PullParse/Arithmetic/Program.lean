import PullParse.Arithmetic.Lexer
import PullParse.Parser.Repetition
import PullParse.Parser.Recursion

/-!
# Evaluating arithmetic

Sums of products of numbers and parenthesised sums. The operators of one level
are collected with their right operands and applied from left to right, so both
levels associate to the left. Division rounds towards negative infinity.
-/

namespace PullParse.Arithmetic

inductive Operator where
  | plus
  | minus
  | times
  | divide
  deriving DecidableEq

namespace Operator

def symbol : Operator → String
  | .plus => "+"
  | .minus => "-"
  | .times => "*"
  | .divide => "/"

def ofSymbol? (s : String) : Option Operator :=
  [plus, minus, times, divide].find? fun op => op.symbol == s

def apply : Operator → Int → Int → Except Fault Int
  | .plus, a, b => .ok (a + b)
  | .minus, a, b => .ok (a - b)
  | .times, a, b => .ok (a * b)
  | .divide, a, b => if b = 0 then .error .divisionByZero else .ok (a.fdiv b)

end Operator

/-- Applies the operator that a symbol names to two numbers. -/
def operate (symbol a b : Value) : Except Fault Value :=
  match symbol, a, b with
  | .str s, .int m, .int n =>
    match Operator.ofSymbol? s with
    | some op => (op.apply m n).map .int
    | none => .error (.badOperands s)
  | _, _, _ => .error (.badOperands symbol.plainText)

/-- Applies one collected step, an operator with its right operand. -/
def applyStep (acc step : Value) : Except Fault Value :=
  match step with
  | .tuple [symbol, operand] => operate symbol acc operand
  | v => .error (.notUnpackable v.kind)

/-- Applies a list of steps from left to right. -/
def applySteps (first : Value) : Value → Except Fault Value
  | .list steps => steps.foldlM applyStep first
  | v => .error (.notIterable v.kind)

/-- One of several operators. -/
def operator (first : Operator) (others : List Operator) : Parser :=
  others.foldl (fun p op => p.either (.is (.str op.symbol))) (.is (.str first.symbol))

/-- An operator and the operand to its right. -/
def step (operand : Parser) (first : Operator) (others : List Operator) : Parser :=
  (operator first others).bind fun symbol =>
    operand.fmap fun value => return .pair symbol value

/-- Operands with operators of one level between them. -/
def chain (operand : Parser) (first : Operator) (others : List Operator) : Parser :=
  operand.bind fun value =>
    (step operand first others).many.fmap fun steps => .ofExcept (applySteps value steps)

/-- A number, or an expression in parentheses. -/
def atom (inner : Parser) : Parser :=
  .either (.is (.str numberClass)) (.between (.is (.str "(")) (.is (.str ")")) inner)

def term (inner : Parser) : Parser := chain (atom inner) .times [.divide]

/-- One level of expressions, given the expressions in its parentheses. -/
def sum (inner : Parser) : Parser := chain (term inner) .plus [.minus]

def expression : Parser := .fix sum

/-- An expression up to the end of the input. -/
def program : Parser :=
  expression.bind fun value => .sequence .eof (.pure value) []

end PullParse.Arithmetic
