import PullParse.Fault.Basic

/-!
# Runs

A run works on a state and ends with a value or with a fault. Loops and
recursive rules may go on for ever, so a run is given a budget: every loop may
make that many rounds and every rule may be nested that deep, and a run that
needs more stays unfinished. The budget is handed unchanged to every part of a
run, so two runs that do the same work need the same one, and a run without an
end is one that no budget finishes.
-/

namespace PullParse

inductive Ending (σ α : Type) where
  | done (value : α) (final : σ)
  | raised (fault : Fault) (final : σ)
  | unfinished

/-- A computation on a state, under a budget. -/
@[ext]
structure Run (σ α : Type) where
  run : Nat → σ → Ending σ α

namespace Ending

variable {σ τ α β : Type}

/-- What comes after a value; the other endings stay as they are. -/
@[inline] def andThen (e : Ending σ α) (f : α → σ → Ending σ β) : Ending σ β :=
  match e with
  | .done a s => f a s
  | .raised fault s => .raised fault s
  | .unfinished => .unfinished

/-- The same ending with another final state. -/
@[inline] def mapFinal (f : σ → τ) : Ending σ α → Ending τ α
  | .done a s => .done a (f s)
  | .raised fault s => .raised fault (f s)
  | .unfinished => .unfinished

/-- The ending of a result in a state. -/
@[inline] def ofExcept (result : Except Fault α) (s : σ) : Ending σ α :=
  match result with
  | .ok a => .done a s
  | .error fault => .raised fault s

end Ending

namespace Run

variable {σ τ α β : Type}

@[inline] protected def pure (a : α) : Run σ α := ⟨fun _ s => .done a s⟩

/-- One run after another, both under the whole budget. -/
@[inline] protected def bind (x : Run σ α) (f : α → Run σ β) : Run σ β :=
  ⟨fun budget s => (x.run budget s).andThen fun a s' => (f a).run budget s'⟩

@[always_inline] instance : Monad (Run σ) where
  pure := Run.pure
  bind := Run.bind

instance : LawfulMonad (Run σ) where
  map_const := rfl
  id_map x := by
    ext budget s
    simp only [Functor.map, Run.bind, Run.pure, Function.comp]
    cases x.run budget s <;> rfl
  seqLeft_eq x y := by
    ext budget s
    simp only [SeqLeft.seqLeft, Seq.seq, Functor.map, Run.bind, Run.pure, Function.comp]
    cases x.run budget s <;> rfl
  seqRight_eq x y := by
    ext budget s
    simp only [SeqRight.seqRight, Seq.seq, Functor.map, Run.bind, Run.pure, Function.comp]
    cases x.run budget s with
    | done a s' => simp only [Ending.andThen]; cases y.run budget s' <;> rfl
    | raised => rfl
    | unfinished => rfl
  pure_seq f x := rfl
  bind_pure_comp f x := rfl
  bind_map f x := rfl
  pure_bind a f := rfl
  bind_assoc x f g := by
    ext budget s
    simp only [Bind.bind, Run.bind]
    cases x.run budget s <;> rfl

@[simp] theorem run_pure (a : α) (budget : Nat) (s : σ) :
    (pure a : Run σ α).run budget s = .done a s := rfl

@[simp] theorem run_bind (x : Run σ α) (f : α → Run σ β) (budget : Nat) (s : σ) :
    (x >>= f).run budget s = (x.run budget s).andThen fun a s' => (f a).run budget s' := rfl

@[inline] def raise (fault : Fault) : Run σ α := ⟨fun _ s => .raised fault s⟩

def unfinished : Run σ α := ⟨fun _ _ => .unfinished⟩

@[inline] def ofExcept (result : Except Fault α) : Run σ α := ⟨fun _ s => .ofExcept result s⟩

@[inline] def get : Run σ σ := ⟨fun _ s => .done s s⟩

@[inline] def modify (f : σ → σ) : Run σ Unit := ⟨fun _ s => .done () (f s)⟩

/-- Reads the budget. -/
@[inline] def withBudget (f : Nat → Run σ α) : Run σ α :=
  ⟨fun budget s => (f budget).run budget s⟩

/-- Turns the faults that `catches` selects into values. -/
@[inline] def attempt (catches : Fault → Bool) (x : Run σ α) : Run σ (Except Fault α) :=
  ⟨fun budget s =>
    match x.run budget s with
    | .done a s' => .done (.ok a) s'
    | .raised fault s' => if catches fault then .done (.error fault) s' else .raised fault s'
    | .unfinished => .unfinished⟩

/-- Applies `after` to the final state, however the run ends. -/
@[inline] def restoring (after : σ → σ) (x : Run σ α) : Run σ α :=
  ⟨fun budget s => (x.run budget s).mapFinal after⟩

/-- Runs inside another state: `enter` makes the inner state, and `leave` puts what it has become
back into the outer one. -/
@[inline] def within (enter : σ → τ) (leave : σ → τ → σ) (x : Run τ α) : Run σ α :=
  ⟨fun budget s => (x.run budget (enter s)).mapFinal (leave s)⟩

end Run

end PullParse
