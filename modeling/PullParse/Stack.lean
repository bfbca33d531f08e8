import PullParse.Fault.Basic
import PullParse.Value.Elements

/-!
# Stacks

User data can serve as a stack whose top is its front. Everything with an order
is a stack except text, and null is the empty one. A stack that was a tuple
stays a tuple; every other becomes a list.
-/

namespace PullParse

structure Stack where
  isTuple : Bool
  elements : Elements

namespace Stack

def isTupleValue : Value → Bool
  | .tuple _ => true
  | _ => false

/-- The elements of a value as a stack. -/
def elementsOf? : Value → Option Elements
  | .null => some (.listed [])
  | .str _ | .dict _ | .set _ => none
  | v => v.elements?

def ofValue (data : Value) : Except Fault Stack :=
  match elementsOf? data with
  | some es => .ok ⟨isTupleValue data, es⟩
  | none => .error (.notSequence data.kind)

/-- A value of the stack's form with other elements. -/
def rebuild (st : Stack) (xs : List Value) : Value :=
  if st.isTuple then .tuple xs else .list xs

/-- The elements of a collection as a list. The size of the collection is asked for before. -/
def writtenOut (es : Elements) : Except Fault (List Value) :=
  match es.size? with
  | none => .error .sizeTooLarge
  | some _ => .ok es.toList

/-- The stack with a value in front. -/
def push (v : Value) (st : Stack) : Except Fault Value :=
  (writtenOut st.elements).map fun xs => st.rebuild (v :: xs)

/-- The front of the stack and what remains. -/
def pop (st : Stack) : Except Fault (Value × Value) :=
  match st.elements.next? with
  | none => .error .emptyStack
  | some (front, rest) => .ok (front, st.rebuild rest.toList)

end Stack

end PullParse
