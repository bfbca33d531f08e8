import PullParse.Parser.Repetition
import PullParse.Proofs.Cache.Streams

/-!
# Reading a stream by index

The meaning of parsers without a cache, a producer or a session: a reader looks
tokens up in a stream by their index and gives a result, nothing if it does not
end within the budget, together with the positions that it has looked at, in
order. A reader has no memory, so reading twice from a state gives the same
thing twice.
-/

namespace PullParse

structure Reading (α : Type) where
  result : Option (Except Fault α)
  /-- The positions looked at, one entry per look. -/
  examined : List Int

abbrev Reader : Type := State → Reading Outcome

namespace Reading

variable {α β : Type}

protected def pure (a : α) : Reading α := ⟨some (.ok a), []⟩

/-- One reading after another. A fault and a reading without end leave the second out. -/
protected def bind (x : Reading α) (f : α → Reading β) : Reading β :=
  match x.result with
  | some (.ok a) => ⟨(f a).result, x.examined ++ (f a).examined⟩
  | some (.error fault) => ⟨some (.error fault), x.examined⟩
  | none => ⟨none, x.examined⟩

instance : Monad Reading where
  pure := Reading.pure
  bind := Reading.bind

def ofExcept (result : Except Fault α) : Reading α := ⟨some result, []⟩

def raise (fault : Fault) : Reading α := ofExcept (.error fault)

def unfinished : Reading α := ⟨none, []⟩

/-- Looks at the token of the stream at a position. -/
def look (t : TokenStream) (position : Int) : Reading Token :=
  ⟨some (.ok (t position.toNat)), [position]⟩

@[simp] theorem result_pure (a : α) : (pure a : Reading α).result = some (.ok a) := rfl

@[simp] theorem examined_pure (a : α) : (pure a : Reading α).examined = [] := rfl

theorem bind_of_ok {x : Reading α} {a : α} (h : x.result = some (.ok a)) (f : α → Reading β) :
    x >>= f = ⟨(f a).result, x.examined ++ (f a).examined⟩ := by
  show Reading.bind x f = _
  rw [Reading.bind, h]

theorem bind_of_error {x : Reading α} {fault : Fault} (h : x.result = some (.error fault))
    (f : α → Reading β) : x >>= f = ⟨some (.error fault), x.examined⟩ := by
  show Reading.bind x f = _
  rw [Reading.bind, h]

theorem bind_of_unfinished {x : Reading α} (h : x.result = none) (f : α → Reading β) :
    x >>= f = ⟨none, x.examined⟩ := by
  show Reading.bind x f = _
  rw [Reading.bind, h]

end Reading

/-! ## Repetitions -/

namespace Reader

/-- The rounds of a repetition: the values, and the state after the last match. -/
def rounds (name : String) (guard : Bool) (r : Reader) : Nat → State → Reading (List Value × State)
  | 0, _ => .unfinished
  | left + 1, s => do
    match ← r s with
    | .noMatch => return ([], s)
    | .matched value s' =>
      if Parser.stalls guard s s' then .raise (Parser.stall name s)
      else
        let rest ← rounds name guard r left s'
        return (value :: rest.1, rest.2)

/-- The rounds up to a terminator, which is tried first in every round. Nothing is found where
neither matches. -/
def roundsUntil (guard : Bool) (r terminator : Reader) :
    Nat → State → Reading (Option (List Value × State))
  | 0, _ => .unfinished
  | left + 1, s => do
    match ← terminator s with
    | .matched _ s' => return some ([], s')
    | .noMatch =>
      match ← r s with
      | .noMatch => return none
      | .matched value s' =>
        if Parser.stalls guard s s' then .raise (Parser.stall "many_until" s)
        else
          match ← roundsUntil guard r terminator left s' with
          | some rest => return some (value :: rest.1, rest.2)
          | none => return none

/-- A fixed number of rounds. -/
def times (r : Reader) : Nat → State → Reading (Option (List Value × State))
  | 0, s => return some ([], s)
  | left + 1, s => do
    match ← r s with
    | .noMatch => return none
    | .matched value s' =>
      match ← times r left s' with
      | some rest => return some (value :: rest.1, rest.2)
      | none => return none

end Reader

/-- The outcome that collected values stand for. -/
def Outcome.ofValues : Option (List Value × State) → Outcome
  | some (values, s) => .matched (.list values) s
  | none => .noMatch

end PullParse
