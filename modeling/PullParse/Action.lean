import PullParse.Fault.Basic

/-!
# Actions

A callback computes a value or raises a fault, and may leave notes on the way.
It sees nothing of the run that calls it, so an action is just its notes, in
order, together with its result.
-/

namespace PullParse

structure Action (α : Type) where
  notes : List Value
  result : Except Fault α

namespace Action

/-- The action that leaves no notes. -/
def ofExcept {α : Type} (result : Except Fault α) : Action α := ⟨[], result⟩

def raise {α : Type} (fault : Fault) : Action α := ⟨[], .error fault⟩

def note (v : Value) : Action Unit := ⟨[v], .ok ()⟩

protected def pure {α : Type} (a : α) : Action α := ⟨[], .ok a⟩

/-- One action after another; a fault of the first leaves the second out. -/
protected def bind {α β : Type} (x : Action α) (f : α → Action β) : Action β :=
  match x.result with
  | .error fault => ⟨x.notes, .error fault⟩
  | .ok a => ⟨x.notes ++ (f a).notes, (f a).result⟩

instance : Monad Action where
  pure := Action.pure
  bind := Action.bind

end Action

end PullParse
