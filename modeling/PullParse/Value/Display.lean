import PullParse.Value.Basic
import PullParse.Text.Quoted

/-!
# The text of a value

Every value has a display text, which shows its kind and content: text is
quoted, collections wear the brackets of their kind, and the payload of a token
is cut down to twenty characters. The plain text of a value is the same, except
that a text stands for itself, without quotes.
-/

namespace PullParse.Value

/-- The longest payload text that a token shows in full. -/
def payloadWidth : Nat := 20

/-- A payload text as a token shows it: a long one keeps three characters less than the limit,
followed by dots. -/
def shorten (shown : String) : String :=
  let cs := shown.toList
  if payloadWidth < cs.length then String.ofList (cs.take (payloadWidth - 3)) ++ "..." else shown

/-- The text of a truth value. -/
def boolText (b : Bool) : String := if b then "True" else "False"

def commaSeparated (parts : List String) : String := ", ".intercalate parts

/-- A tuple of one element keeps a comma, to tell it from a parenthesised value. -/
def tupleText : List String → String
  | [part] => "(" ++ part ++ ",)"
  | parts => "(" ++ commaSeparated parts ++ ")"

/-- A range shows its step only if it is not one. -/
def rangeText (start stop step : Int) : String :=
  let ends := [toString start, toString stop]
  "range(" ++ commaSeparated (if step == 1 then ends else ends ++ [toString step]) ++ ")"

mutual

def display : Value → String
  | .null => "None"
  | .bool b => boolText b
  | .int n => toString n
  | .str s => Text.quoted s
  | .list xs => "[" ++ commaSeparated (displayList xs) ++ "]"
  | .tuple xs => tupleText (displayList xs)
  | .dict entries => "\x7b" ++ commaSeparated (displayEntries entries) ++ "\x7d"
  | .deque xs => "deque([" ++ commaSeparated (displayList xs) ++ "])"
  | .bytes bs => Text.quotedBytes bs
  | .byteArray bs => "bytearray(" ++ Text.quotedByteArray bs ++ ")"
  | .range start stop step => rangeText start stop step
  | .set [] => "set()"
  | .set (x :: xs) => "\x7b" ++ commaSeparated (display x :: displayList xs) ++ "\x7d"
  | .token .null _ => "Token(EOF)"
  | .token cls value => "Token(" ++ display cls ++ ", " ++ shorten (display value) ++ ")"
  | .settings userData propagate errorValue guard =>
    "ParseConfig(initial_user_data=" ++ display userData ++ ", error_propagation=" ++
      display propagate ++ ", error_value=" ++ display errorValue ++ ", guard_empty_loops=" ++
      display guard ++ ")"

def displayList : List Value → List String
  | [] => []
  | x :: xs => display x :: displayList xs

def displayEntries : List (Value × Value) → List String
  | [] => []
  | e :: es => displayEntry e :: displayEntries es

def displayEntry : Value × Value → String
  | (k, v) => display k ++ ": " ++ display v

end

/-- The text of a value where it is not quoted. -/
def plainText : Value → String
  | .str s => s
  | v => v.display

end PullParse.Value
