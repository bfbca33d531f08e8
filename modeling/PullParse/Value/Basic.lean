/-!
# Values

Token classes, token payloads, results, user data and settings are all values:
scalars, sequences, dictionaries, sets, and the two records of the library
itself, tokens and settings. Every value has a kind, a truth and, if it is a
collection, elements.
-/

namespace PullParse

inductive Value where
  | null
  | bool (b : Bool)
  | int (n : Int)
  | str (s : String)
  | list (xs : List Value)
  | tuple (xs : List Value)
  | dict (entries : List (Value × Value))
  | deque (xs : List Value)
  | bytes (bs : List UInt8)
  | byteArray (bs : List UInt8)
  | range (start stop step : Int)
  | set (xs : List Value)
  | token (cls value : Value)
  | settings (userData propagate errorValue guard : Value)

namespace Value

instance : Inhabited Value := ⟨.null⟩

/-- The pair of two values. -/
def pair (a b : Value) : Value := .tuple [a, b]

/-- The name of a value's kind, as messages show it. -/
def kind : Value → String
  | .null => "NoneType"
  | .bool _ => "bool"
  | .int _ => "int"
  | .str _ => "str"
  | .list _ => "list"
  | .tuple _ => "tuple"
  | .dict _ => "dict"
  | .deque _ => "deque"
  | .bytes _ => "bytes"
  | .byteArray _ => "bytearray"
  | .range _ _ _ => "range"
  | .set _ => "set"
  | .token _ _ => "Token"
  | .settings _ _ _ _ => "ParseConfig"

/-- The number of members of the progression from `start` towards `stop`, `stop` excluded. -/
def progressionLength (start stop step : Int) : Nat :=
  if 0 < step then ((stop - start + (step - 1)) / step).toNat
  else if step < 0 then ((start - stop + (-step - 1)) / -step).toNat
  else 0

/-- Null, false, zero and everything empty are false; all else is true. -/
def truth : Value → Bool
  | .null => false
  | .bool b => b
  | .int n => n != 0
  | .str s => s != ""
  | .list xs | .tuple xs | .deque xs | .set xs => !xs.isEmpty
  | .dict entries => !entries.isEmpty
  | .bytes bs | .byteArray bs => !bs.isEmpty
  | .range start stop step => progressionLength start stop step != 0
  | .token _ _ | .settings _ _ _ _ => true

/-- The integer that a value stands for as a count; the truth values count as one and zero. -/
def asCount? : Value → Option Int
  | .int n => some n
  | .bool b => some (if b then 1 else 0)
  | _ => none

end Value

end PullParse
