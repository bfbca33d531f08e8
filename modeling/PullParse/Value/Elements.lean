import PullParse.Value.Basic

/-!
# Elements of collections

The elements of a collection in their order of iteration: the characters of a
text, the keys of a dictionary, the numbers of a byte string or of a range.
Ranges are stepped through and never written out, however long they are.
-/

namespace PullParse

/-- What remains of an iteration: the values listed, or the `left` members of an arithmetic
progression that starts at `next`. -/
inductive Elements where
  | listed (xs : List Value)
  | progression (left : Nat) (next step : Int)

namespace Elements

/-- The first element and the iteration that remains after it. -/
def next? : Elements → Option (Value × Elements)
  | .listed [] => none
  | .listed (x :: xs) => some (x, .listed xs)
  | .progression 0 _ _ => none
  | .progression (left + 1) next step => some (.int next, .progression left (next + step) step)

/-- The largest number that fits into a machine word. -/
def maxWord : Nat := 9223372036854775807

/-- The number of elements, if it fits into a machine word; only a progression can be longer. -/
def size? : Elements → Option Nat
  | .listed xs => some xs.length
  | .progression left _ _ => if left ≤ maxWord then some left else none

/-- At most the first `n` elements. -/
def take : Nat → Elements → List Value
  | 0, _ => []
  | n + 1, es =>
    match es.next? with
    | none => []
    | some (x, rest) => x :: rest.take n

/-- The members of an arithmetic progression. -/
def progressionList : Nat → Int → Int → List Value
  | 0, _, _ => []
  | left + 1, next, step => .int next :: progressionList left (next + step) step

def toList : Elements → List Value
  | .listed xs => xs
  | .progression left next step => progressionList left next step

end Elements

namespace Value

def ofByte (b : UInt8) : Value := .int b.toNat

/-- The elements of a collection, or nothing for a value that is not one. -/
def elements? : Value → Option Elements
  | .str s => some (.listed (s.toList.map fun c => .str (String.singleton c)))
  | .list xs | .tuple xs | .deque xs | .set xs => some (.listed xs)
  | .dict entries => some (.listed (entries.map Prod.fst))
  | .bytes bs | .byteArray bs => some (.listed (bs.map ofByte))
  | .range start stop step => some (.progression (progressionLength start stop step) start step)
  | .null | .bool _ | .int _ | .token _ _ | .settings _ _ _ _ => none

end Value

end PullParse
