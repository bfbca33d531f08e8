import PullParse.Producer
import PullParse.Text.Blank
import PullParse.Text.Decimal

/-!
# Tokens of arithmetic

A run of digits is one number, every other character that is not blank is an
operator of its own, and blanks separate. An operator is its own class and
payload.
-/

namespace PullParse.Arithmetic

def numberClass : String := "num"

def numberToken (n : Int) : Token := ⟨.str numberClass, .int n⟩

def symbolToken (symbol : String) : Token := ⟨.str symbol, .str symbol⟩

def lex : List Char → List Token
  | [] => []
  | c :: cs =>
    if Text.isBlank c then lex cs
    else if Text.isDigit c then
      numberToken (Text.numeral (c :: cs.takeWhile Text.isDigit)) :: lex (cs.dropWhile Text.isDigit)
    else symbolToken (String.singleton c) :: lex cs
termination_by cs => cs.length
decreasing_by
  · simp
  · exact Nat.lt_succ_of_le (List.dropWhile_sublist Text.isDigit).length_le
  · simp

/-- The producer of a list of tokens, which it hands out as pairs. -/
def producerOf (tokens : List Token) : Producer :=
  .ofAnswers (tokens.map fun t => .ok t.toPair).toArray

/-- The producer of the tokens of a text. -/
def producer (source : String) : Producer := producerOf (lex source.toList)

end PullParse.Arithmetic
