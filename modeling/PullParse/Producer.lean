import PullParse.Token

/-!
# Producers

A producer hands out one answer per call. It either adapts a collection of
pairs, or answers each call from a given sequence of answers and faults. An
adapter delivers the elements in order, skips none that is malformed but raises
for it, and is closed by its first end token or by running out of elements; a
closed adapter answers with the end token for ever.
-/

namespace PullParse

inductive Source where
  /-- The elements that an adapter has not delivered yet, and whether it is closed. -/
  | items (rest : Elements) (closed : Bool)
  /-- The answer to each call by its number, from zero. -/
  | answers (answer : Nat → Except Fault Value)

structure Producer where
  source : Source
  calls : Nat

namespace Producer

/-- The adapter of a collection. -/
def ofElements (es : Elements) : Producer := ⟨.items es false, 0⟩

/-- The adapter of a value, which has to be a collection. -/
def ofValue (v : Value) : Except Fault Producer :=
  match v.elements? with
  | none => .error (.notIterable v.kind)
  | some es => .ok (ofElements es)

/-- The producer that answers call after call from a list, and with the end pair afterwards. -/
def ofAnswers (answers : Array (Except Fault Value)) : Producer :=
  ⟨.answers fun k => (answers[k]?).getD (.ok Token.eof.toPair), 0⟩

end Producer

/-- One call: the answer, and the source after it. -/
def Source.call (calls : Nat) : Source → Except Fault Value × Source
  | .answers answer => (answer calls, .answers answer)
  | .items rest true => (.ok Token.eof.toPair, .items rest true)
  | .items rest false =>
    match rest.next? with
    | none => (.ok Token.eof.toPair, .items rest true)
    | some (item, rest') =>
      match Token.ofPair item with
      | .error fault => (.error fault, .items rest' false)
      | .ok token => (.ok token.toPair, .items rest' token.isEof)

/-- Calls the producer once. -/
def Producer.next (p : Producer) : Except Fault Value × Producer :=
  let (answer, source) := p.source.call p.calls
  (answer, ⟨source, p.calls + 1⟩)

/-- The answers of the next `n` calls. -/
def Producer.answers : Nat → Producer → List (Except Fault Value)
  | 0, _ => []
  | n + 1, p =>
    let (answer, p') := p.next
    answer :: p'.answers n

end PullParse
