import PullParse.Run.Basic

/-!
# Endings and their results

What is left of an ending when its final state is forgotten, or when nothing but
its final state is kept, and what becomes of the parts of a run and of its value.
-/

namespace PullParse.Ending

variable {σ α : Type}

/-- The value or the fault of an ending; nothing if there is no end within the budget. -/
def result? : Ending σ α → Option (Except Fault α)
  | .done a _ => some (.ok a)
  | .raised fault _ => some (.error fault)
  | .unfinished => none

/-- The state that a run has left behind, if it has ended. -/
def final? : Ending σ α → Option σ
  | .done _ s => some s
  | .raised _ s => some s
  | .unfinished => none

@[simp] theorem result?_ofExcept (result : Except Fault α) (s : σ) :
    (ofExcept result s).result? = some result := by
  cases result <;> rfl

@[simp] theorem final?_ofExcept (result : Except Fault α) (s : σ) :
    (ofExcept result s).final? = some s := by
  cases result <;> rfl

/-- An ending has a result if and only if it has left a state behind. -/
theorem isSome_final? (e : Ending σ α) : e.final?.isSome = e.result?.isSome := by
  cases e <;> rfl

/-- An ending with a value as its result has left a state behind. -/
theorem exists_done_of_result? {e : Ending σ α} {a : α} (h : e.result? = some (.ok a)) :
    ∃ s, e = .done a s := by
  cases e with
  | done b s =>
      cases h
      exact ⟨s, rfl⟩
  | raised fault s => cases h
  | unfinished => cases h

/-- An ending with a fault as its result has left a state behind. -/
theorem exists_raised_of_result? {e : Ending σ α} {fault : Fault}
    (h : e.result? = some (.error fault)) : ∃ s, e = .raised fault s := by
  cases e with
  | done a s => cases h
  | raised fault' s =>
      cases h
      exact ⟨s, rfl⟩
  | unfinished => cases h

@[simp] theorem result?_mapFinal {τ : Type} (f : σ → τ) (e : Ending σ α) :
    (e.mapFinal f).result? = e.result? := by
  cases e <;> rfl

@[simp] theorem final?_mapFinal {τ : Type} (f : σ → τ) (e : Ending σ α) :
    (e.mapFinal f).final? = e.final?.map f := by
  cases e <;> rfl

end PullParse.Ending

namespace PullParse.Run

variable {σ α β : Type}

/-- A run of two parts that has a value goes through a value of the first part. -/
theorem done_bind {x : Run σ α} {f : α → Run σ β} {budget : Nat} {s s'' : σ} {b : β}
    (h : (x >>= f).run budget s = .done b s'') :
    ∃ a s', x.run budget s = .done a s' ∧ (f a).run budget s' = .done b s'' := by
  rw [run_bind] at h
  cases hx : x.run budget s with
  | done a s' =>
      rw [hx] at h
      exact ⟨a, s', rfl, h⟩
  | raised fault s' =>
      rw [hx] at h
      cases h
  | unfinished =>
      rw [hx] at h
      cases h

/-- Replacing the value of a run does not change what it catches. -/
theorem attempt_map (catches : Fault → Bool) (f : α → β) (x : Run σ α) :
    (f <$> x).attempt catches = Except.map f <$> x.attempt catches := by
  ext budget s
  simp only [Functor.map, Run.bind, Run.attempt]
  cases x.run budget s with
  | done a s' => rfl
  | raised fault s' =>
      simp only [Ending.andThen]
      split
      · rfl
      · rfl
  | unfinished => rfl

theorem withBudget_map {f : α → β} {x : Nat → Run σ β} {y : Nat → Run σ α}
    (h : ∀ budget, x budget = f <$> y budget) : withBudget x = f <$> withBudget y := by
  ext budget s
  exact congrArg (fun z => z.run budget s) (h budget)

end PullParse.Run
