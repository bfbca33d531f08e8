import PullParse.Value.Basic

/-!
# Equality of values

Values are compared by what they hold. The truth values equal one and zero, the
two kinds of byte string equal each other, ranges are equal when they have the
same members, and dictionaries and sets ignore order. Lists, tuples and deques
equal only their own kind; tokens and settings are compared field by field.
-/

namespace PullParse.Value

/-- Ranges are equal when they run through the same numbers. -/
def sameProgression (start stop step start' stop' step' : Int) : Bool :=
  let n := progressionLength start stop step
  n == progressionLength start' stop' step' &&
    (n == 0 || (start == start' && (n == 1 || step == step')))

def boolAsInt (b : Bool) : Int := if b then 1 else 0

mutual

def equal : Value → Value → Bool
  | .null, .null => true
  | .bool a, .bool b => a == b
  | .bool a, .int n => boolAsInt a == n
  | .int n, .bool b => n == boolAsInt b
  | .int m, .int n => m == n
  | .str s, .str t => s == t
  | .list xs, .list ys => equalLists xs ys
  | .tuple xs, .tuple ys => equalLists xs ys
  | .deque xs, .deque ys => equalLists xs ys
  | .dict es, .dict fs => es.length == fs.length && entriesWithin es fs
  | .bytes bs, .bytes cs => bs == cs
  | .bytes bs, .byteArray cs => bs == cs
  | .byteArray bs, .bytes cs => bs == cs
  | .byteArray bs, .byteArray cs => bs == cs
  | .range a b c, .range a' b' c' => sameProgression a b c a' b' c'
  | .set xs, .set ys => xs.length == ys.length && within xs ys
  | .token c v, .token c' v' => equal c c' && equal v v'
  | .settings a b c d, .settings a' b' c' d' =>
    equal a a' && equal b b' && equal c c' && equal d d'
  | _, _ => false

/-- Lists of the same length with equal elements. -/
def equalLists : List Value → List Value → Bool
  | [], [] => true
  | x :: xs, y :: ys => equal x y && equalLists xs ys
  | _, _ => false

/-- Whether every element of the first list equals one of the second. -/
def within : List Value → List Value → Bool
  | [], _ => true
  | x :: xs, ys => ys.any (fun y => equal x y) && within xs ys

/-- Whether every entry of the first list occurs in the second. -/
def entriesWithin : List (Value × Value) → List (Value × Value) → Bool
  | [], _ => true
  | e :: es, fs => fs.any (fun f => equalEntries e f) && entriesWithin es fs

def equalEntries : Value × Value → Value × Value → Bool
  | (k, v), f => equal k f.1 && equal v f.2

end

instance : BEq Value := ⟨equal⟩

/-- A value equals a text only if it is that text. -/
theorem equal_str_iff {v : Value} {text : String} : v.equal (.str text) = true ↔ v = .str text := by
  cases v <;> simp [equal]

/-- A later entry replaces the value of an equal key and keeps the key's place. -/
def insertEntry (k v : Value) : List (Value × Value) → List (Value × Value)
  | [] => [(k, v)]
  | (k', v') :: rest =>
    if equal k' k then (k', v) :: rest else (k', v') :: insertEntry k v rest

/-- The dictionary that a list of entries builds up. -/
def dictOf (entries : List (Value × Value)) : Value :=
  .dict (entries.foldl (fun es e => insertEntry e.1 e.2 es) [])

/-- The elements of a list without repetition; of equal elements the first one stays. -/
def distinct (xs : List Value) : List Value :=
  xs.foldl (fun ys x => if ys.any (fun y => equal y x) then ys else ys ++ [x]) []

/-- The number that a natural number or a truth value counts as. -/
def asNatural? (v : Value) : Option Nat :=
  match v.asCount? with
  | some (.ofNat n) => some n
  | _ => none

/-- The set of the elements of a list. Natural numbers are kept in ascending order, everything else
in order of first mention. -/
def setOf (xs : List Value) : Value :=
  let ys := distinct xs
  if ys.all fun y => (asNatural? y).isSome then
    .set (ys.mergeSort fun a b => (asNatural? a).getD 0 ≤ (asNatural? b).getD 0)
  else .set ys

end PullParse.Value
