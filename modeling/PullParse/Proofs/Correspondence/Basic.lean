import PullParse.Parser.Repetition

/-!
# Corresponding runs

Two runs correspond if from contexts that belong together they end in the same
way, in contexts that belong together again. What belongs together is left open
here, and so is what remains of it once a fault has broken the runs off. It may
also be that nothing is asked of the second run then: two runs that correspond
like this are the same as long as no fault is raised.
-/

namespace PullParse

variable {α β γ δ : Type}

/-- What two runs have in common. Their contexts agree on the guard of repetitions, and their states
on the position, so that both make the same rounds. -/
structure Correspondence where
  /-- The contexts belong together while the runs go on. -/
  contexts : Context → Context → Prop
  states : State → State → Prop
  /-- The contexts belong together once the fault has broken both runs off. -/
  broken : Fault → Context → Context → Prop
  /-- Nothing is asked of the second run once the first one is broken off. -/
  lenient : Prop
  guard_eq : ∀ {ctx ctx'}, contexts ctx ctx' →
    ctx'.session.settings.guard.truth = ctx.session.settings.guard.truth
  position_eq : ∀ {s s'}, states s s' → s'.position = s.position
  stalled : ∀ {ctx ctx'}, contexts ctx ctx' → ∀ name s, broken (Parser.stall name s) ctx ctx'

/-- What runs from the same state have in common. -/
def Correspondence.ofContexts (contexts : Context → Context → Prop)
    (broken : Fault → Context → Context → Prop) (lenient : Prop)
    (guard_eq : ∀ {ctx ctx'}, contexts ctx ctx' →
      ctx'.session.settings.guard.truth = ctx.session.settings.guard.truth)
    (stalled : ∀ {ctx ctx'}, contexts ctx ctx' → ∀ fault, broken fault ctx ctx') :
    Correspondence where
  contexts := contexts
  states := Eq
  broken := broken
  lenient := lenient
  guard_eq := guard_eq
  position_eq h := by rw [h]
  stalled h name s := stalled h (Parser.stall name s)

variable {C : Correspondence}

inductive Ending.Corresponds (C : Correspondence) (same : α → β → Prop) :
    Ending Context α → Ending Context β → Prop
  | done {a : α} {b : β} {ctx ctx' : Context} (h : C.contexts ctx ctx') (hab : same a b) :
      Corresponds C same (.done a ctx) (.done b ctx')
  | raised {fault : Fault} {ctx ctx' : Context} (h : C.broken fault ctx ctx') :
      Corresponds C same (.raised fault ctx) (.raised fault ctx')
  | excused {fault : Fault} {ctx : Context} {e : Ending Context β} (h : C.lenient) :
      Corresponds C same (.raised fault ctx) e
  | unfinished : Corresponds C same .unfinished .unfinished

theorem Ending.Corresponds.ofExcept (result : Except Fault α) {ctx ctx' : Context}
    (h : C.contexts ctx ctx') (hbroken : ∀ fault, C.broken fault ctx ctx') :
    Corresponds C Eq (.ofExcept result ctx) (.ofExcept result ctx') := by
  cases result with
  | ok a => exact .done h rfl
  | error fault => exact .raised (hbroken fault)

/-- From contexts that belong together the runs end in the same way. -/
def Run.Corresponds (C : Correspondence) (budget : Nat) (same : α → β → Prop) (x : Run Context α)
    (y : Run Context β) : Prop :=
  ∀ ctx ctx', C.contexts ctx ctx' →
    (x.run budget ctx).Corresponds C same (y.run budget ctx')

namespace Run.Corresponds

variable {budget : Nat} {same : α → β → Prop} {same' : γ → δ → Prop}
variable {x : Run Context α} {y : Run Context β}

theorem pure {a : α} {b : β} (h : same a b) :
    Corresponds C budget same (Pure.pure a) (Pure.pure b) := fun _ _ hctx => .done hctx h

theorem unfinished :
    Corresponds C budget same (Run.unfinished : Run Context α) (Run.unfinished : Run Context β) :=
  fun _ _ _ => .unfinished

/-- A stalled repetition breaks both runs off. -/
theorem stall (name : String) {s s' : State} (h : C.states s s') :
    Corresponds C budget same (Run.raise (Parser.stall name s))
      (Run.raise (Parser.stall name s')) := by
  have hfault : Parser.stall name s' = Parser.stall name s := by
    rw [Parser.stall, Parser.stall, C.position_eq h]
  rw [hfault]
  exact fun _ _ hctx => .raised (C.stalled hctx name s)

theorem bind {f : α → Run Context γ} {g : β → Run Context δ} (h : Corresponds C budget same x y)
    (hf : ∀ a b, same a b → Corresponds C budget same' (f a) (g b)) :
    Corresponds C budget same' (x >>= f) (y >>= g) := by
  intro ctx ctx' hctx
  have hends := h ctx ctx' hctx
  rw [run_bind, run_bind]
  generalize x.run budget ctx = e, y.run budget ctx' = e' at hends
  cases hends with
  | done hctx₁ hab => exact hf _ _ hab _ _ hctx₁
  | raised hbroken => exact .raised hbroken
  | excused hlenient => exact .excused hlenient
  | unfinished => exact .unfinished

/-- Both runs read the same guard. -/
theorem guarded {f : Bool → Run Context α} {g : Bool → Run Context β}
    (h : ∀ guard, Corresponds C budget same (f guard) (g guard)) :
    Corresponds C budget same (Parser.guarded >>= f) (Parser.guarded >>= g) := by
  intro ctx ctx' hctx
  have hends := h ctx.session.settings.guard.truth ctx ctx' hctx
  show Ending.Corresponds C same _ ((g ctx'.session.settings.guard.truth).run budget ctx')
  rw [C.guard_eq hctx]
  exact hends

theorem withBudget {f : Nat → Run Context α} {g : Nat → Run Context β}
    (h : Corresponds C budget same (f budget) (g budget)) :
    Corresponds C budget same (Run.withBudget f) (Run.withBudget g) := h

end Run.Corresponds

end PullParse
