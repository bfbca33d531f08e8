import PullParse.Parser.Repetition
import PullParse.Proofs.Cache.Finite
import PullParse.Proofs.Reading.Runs
import PullParse.Proofs.Run.Endings

/-!
# Runs under two guards

The same run is made twice, under the guard of its settings and under another one.
The guard is read in repetitions alone, and what it is good for is to break them
off: so the two runs stay in lockstep up to the round that stalls, and if none
does, to their end. A third run beside the first keeps apart what the guard has
broken off from what a callback or a producer has: there the faults of all leaves
are masked, and a stalled repetition that is left can only come from the guard.
-/

namespace PullParse

variable {α β : Type}

/-! ## Contexts under another guard -/

def Session.withGuard (guard : Value) (session : Session) : Session :=
  { session with settings := { session.settings with guard := guard } }

def Context.withGuard (guard : Value) (ctx : Context) : Context :=
  ctx.mapSession (Session.withGuard guard)

theorem Session.writeNotes_withGuard (guard : Value) (session : Session) (notes : List Value) :
    (session.withGuard guard).writeNotes notes = (session.writeNotes notes).withGuard guard := by
  unfold writeNotes
  induction notes generalizing session with
  | nil => rfl
  | cons v notes ih => exact ih (session.write (.note v))

theorem Session.settings_writeNotes (session : Session) (notes : List Value) :
    (session.writeNotes notes).settings = session.settings := by
  unfold writeNotes
  induction notes generalizing session with
  | nil => rfl
  | cons v notes ih => exact ih (session.write (.note v))

/-- Neither the settings nor the marks of entered parsers have changed. -/
structure Context.Kept (ctx ctx' : Context) : Prop where
  settings_eq : ctx'.session.settings = ctx.session.settings
  entered_eq : ctx'.session.entered = ctx.session.entered

theorem Context.Kept.refl (ctx : Context) : ctx.Kept ctx := ⟨rfl, rfl⟩

theorem Context.Kept.trans {ctx ctx' ctx'' : Context} (h : ctx.Kept ctx') (h' : ctx'.Kept ctx'') :
    ctx.Kept ctx'' :=
  ⟨h'.settings_eq.trans h.settings_eq, h'.entered_eq.trans h.entered_eq⟩

/-! ## Runs that do not see the guard -/

/-- The run comes to an end that does not depend on the guard, and keeps the settings. -/
structure Run.Steady (guard : Value) (x : Run Context α) : Prop where
  commutes : ∀ budget ctx, x.run budget (ctx.withGuard guard) =
    (x.run budget ctx).mapFinal (Context.withGuard guard)
  ends : ∀ budget ctx, ∃ ctx', (x.run budget ctx).final? = some ctx' ∧ ctx.Kept ctx'

namespace Run.Steady

variable {guard : Value}

theorem pure (a : α) : Steady guard (Pure.pure a : Run Context α) :=
  ⟨fun _ _ => rfl, fun _ ctx => ⟨ctx, rfl, .refl ctx⟩⟩

theorem raise (fault : Fault) : Steady guard (Run.raise fault : Run Context α) :=
  ⟨fun _ _ => rfl, fun _ ctx => ⟨ctx, rfl, .refl ctx⟩⟩

theorem ofExcept (result : Except Fault α) : Steady guard (Run.ofExcept result) := by
  cases result with
  | ok a => exact pure a
  | error fault => exact raise fault

theorem bind {x : Run Context α} {f : α → Run Context β} (hx : Steady guard x)
    (hf : ∀ a, Steady guard (f a)) : Steady guard (x >>= f) := by
  constructor
  · intro budget ctx
    rw [run_bind, run_bind, hx.commutes]
    cases x.run budget ctx with
    | done a ctx' => exact (hf a).commutes budget ctx'
    | raised fault ctx' => rfl
    | unfinished => rfl
  · intro budget ctx
    obtain ⟨ctx₁, hfinal, hkept⟩ := hx.ends budget ctx
    rw [run_bind]
    cases hrun : x.run budget ctx with
    | done a ctx' =>
        rw [hrun] at hfinal
        cases hfinal
        obtain ⟨ctx₂, hfinal', hkept'⟩ := (hf a).ends budget ctx₁
        exact ⟨ctx₂, hfinal', hkept.trans hkept'⟩
    | raised fault ctx' =>
        rw [hrun] at hfinal
        exact ⟨ctx₁, hfinal, hkept⟩
    | unfinished =>
        rw [hrun] at hfinal
        cases hfinal

theorem tokenAt (position : Int) : Steady guard (Run.tokenAt position) := by
  constructor
  · rintro budget ⟨cache, session⟩
    simp only [Run.tokenAt, Context.tokenAt, Context.withGuard, Context.mapSession]
    cases (cache.tokenAt position).1 <;> simp only [Ending.ofExcept, Ending.mapFinal] <;>
      split <;> rfl
  · rintro budget ⟨cache, session⟩
    refine ⟨(Context.tokenAt position ⟨cache, session⟩).2, Ending.final?_ofExcept _ _, ?_⟩
    simp only [Context.tokenAt]
    split
    · exact ⟨rfl, rfl⟩
    · exact ⟨rfl, by simp [Session.entered_write]⟩

theorem perform (x : Action α) : Steady guard (Run.perform x) := by
  constructor
  · intro budget ctx
    simp only [Run.perform, Context.withGuard, Context.mapSession, Session.writeNotes_withGuard]
    cases x.result <;> rfl
  · intro budget ctx
    refine ⟨ctx.mapSession fun session => session.writeNotes x.notes, Ending.final?_ofExcept _ _,
      Session.settings_writeNotes _ _, Session.entered_writeNotes _ _⟩

end Run.Steady

/-! ## The three runs -/

/-- What is compared, and what may happen on the way. -/
structure Regime where
  /-- The settings of the first run. -/
  settings : Settings
  /-- The guard of the other run. -/
  guard : Value
  /-- Whether a round may consume nothing, which has to stall the first run. -/
  stalls : Prop
  guarded : stalls → settings.guard.truth = true
  /-- Whether the budget may run out. If not, the input has to come to an end. -/
  unending : Prop
  /-- The position of the end of the input. -/
  last : Nat

/-- The context is that of the first run, on an input that ends where it has to. -/
structure Context.Under (ctx : Context) (R : Regime) : Prop where
  settings_eq : ctx.session.settings = R.settings
  ends : R.unending ∨ ctx.cache.EndsBy R.last

theorem Context.Under.grows {ctx ctx' : Context} {R : Regime} (h : ctx.Under R)
    (hsettings : ctx'.session.settings = ctx.session.settings)
    (hgrows : ctx.cache.GrowsTo ctx'.cache) : ctx'.Under R :=
  ⟨hsettings.trans h.settings_eq, h.ends.imp_right fun hends => hends.grows hgrows⟩

/-- Three endings: of a run with masked leaves, of the run itself, and of the run under the other
guard. -/
inductive Ending.Lockstep (R : Regime) (ctx : Context) :
    Ending Context α → Ending Context α → Ending Context α → Prop
  | done {a : α} {ctx' : Context} (h : ctx.Kept ctx') :
      Lockstep R ctx (.done a ctx') (.done a ctx') (.done a (ctx'.withGuard R.guard))
  | raised {fault : Fault} {ctx' : Context} (h : ctx.Kept ctx') :
      Lockstep R ctx (.raised (.general []) ctx') (.raised fault ctx')
        (.raised fault (ctx'.withGuard R.guard))
  | stalled {name : String} {s : State} {ctx' : Context} {e : Ending Context α}
      (hstalls : R.stalls) (h : ctx.Kept ctx') :
      Lockstep R ctx (.raised (Parser.stall name s) ctx') (.raised (Parser.stall name s) ctx') e
  | unfinished (h : R.unending) : Lockstep R ctx .unfinished .unfinished .unfinished

theorem Ending.Lockstep.kept {R : Regime} {ctx ctx' : Context} {em e eo : Ending Context α}
    (hkept : ctx.Kept ctx') (h : Lockstep R ctx' em e eo) : Lockstep R ctx em e eo := by
  cases h with
  | done h => exact .done (hkept.trans h)
  | raised h => exact .raised (hkept.trans h)
  | stalled hstalls h => exact .stalled hstalls (hkept.trans h)
  | unfinished h => exact .unfinished h

/-- The endings of three runs, the third from the context under the other guard. -/
def Run.Lockstep (R : Regime) (budget : Nat) (ctx : Context) (m x y : Run Context α) : Prop :=
  (m.run budget ctx).Lockstep R ctx (x.run budget ctx) (y.run budget (ctx.withGuard R.guard))

namespace Run.Lockstep

variable {R : Regime} {budget : Nat} {ctx : Context} {m x y : Run Context α}

theorem pure (a : α) : Lockstep R budget ctx (Pure.pure a) (Pure.pure a) (Pure.pure a) :=
  .done (.refl ctx)

/-- One after the other. What follows may rely on how the first part has been run. -/
theorem bind {fm fx fy : α → Run Context β} (h : Lockstep R budget ctx m x y)
    (hf : ∀ a ctx', x.run budget ctx = .done a ctx' → ctx.Kept ctx' →
      Lockstep R budget ctx' (fm a) (fx a) (fy a)) :
    Lockstep R budget ctx (m >>= fm) (x >>= fx) (y >>= fy) := by
  unfold Lockstep at h ⊢
  rw [run_bind, run_bind, run_bind]
  generalize m.run budget ctx = em, hx : x.run budget ctx = ex,
    y.run budget (ctx.withGuard R.guard) = ey at h
  cases h with
  | done hkept => exact (hf _ _ hx hkept).kept hkept
  | raised hkept => exact .raised hkept
  | stalled hstalls hkept => exact .stalled hstalls hkept
  | unfinished h => exact .unfinished h

/-- Each run reads its own guard. -/
theorem guarded (hctx : ctx.Under R) {fm fx fy : Bool → Run Context α}
    (h : Lockstep R budget ctx (fm R.settings.guard.truth) (fx R.settings.guard.truth)
      (fy R.guard.truth)) :
    Lockstep R budget ctx (Parser.guarded >>= fm) (Parser.guarded >>= fx)
      (Parser.guarded >>= fy) := by
  rw [← hctx.settings_eq] at h
  exact h

/-- What may have happened at the end of three runs. -/
theorem cases_stalled (h : Lockstep R budget ctx m x y) :
    (R.stalls ∧ ∃ name s ctx', m.run budget ctx = .raised (Parser.stall name s) ctx' ∧
        x.run budget ctx = .raised (Parser.stall name s) ctx') ∨
      ((∀ combinator position ctx',
          m.run budget ctx ≠ .raised (.stalled combinator position) ctx') ∧
        y.run budget (ctx.withGuard R.guard) =
          (x.run budget ctx).mapFinal (Context.withGuard R.guard)) := by
  unfold Lockstep at h
  generalize m.run budget ctx = em, x.run budget ctx = ex,
    y.run budget (ctx.withGuard R.guard) = ey at h
  cases h with
  | done => exact .inr ⟨(by intro _ _ _ h; cases h), rfl⟩
  | raised => exact .inr ⟨(by intro _ _ _ h; cases h), rfl⟩
  | stalled hstalls => exact .inl ⟨hstalls, _, _, _, rfl, rfl⟩
  | unfinished => exact .inr ⟨(by intro _ _ _ h; cases h), rfl⟩

/-- Where the budget may not run out, the run ends. -/
theorem exists_final (h : Lockstep R budget ctx m x y) (hends : ¬R.unending) :
    ∃ ctx', (x.run budget ctx).final? = some ctx' ∧ ctx.Kept ctx' := by
  unfold Lockstep at h
  generalize m.run budget ctx = em, x.run budget ctx = ex,
    y.run budget (ctx.withGuard R.guard) = ey at h
  cases h with
  | done hkept => exact ⟨_, rfl, hkept⟩
  | raised hkept => exact ⟨_, rfl, hkept⟩
  | stalled _ hkept => exact ⟨_, rfl, hkept⟩
  | unfinished hunending => exact absurd hunending hends

end Run.Lockstep

end PullParse
