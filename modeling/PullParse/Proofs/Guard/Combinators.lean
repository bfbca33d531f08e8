import PullParse.Parser.UserData
import PullParse.Parser.Observed
import PullParse.Proofs.Guard.Lockstep
import PullParse.Proofs.Position.Combinators

/-!
# Combinators run in lockstep

A parser runs in lockstep if from every state in range its three runs do: with
masked leaves, as it is, and under the other guard. Leaves never look at the
guard. A combinator hands on what its parts have done, and what a part has done
leaves the next one in range, by what is known of positions.
-/

namespace PullParse

/-- Hides which fault has broken the parser off. -/
def Parser.masked (p : Parser) : Parser := fun s =>
  ⟨fun budget ctx =>
    match (p s).run budget ctx with
    | .raised _ ctx' => .raised (.general []) ctx'
    | e => e⟩

/-- From every state in range the three runs of a parser are in lockstep. -/
def Parser.Lockstep (R : Regime) (budget : Nat) (pm p : Parser) : Prop :=
  ∀ (s : State) (ctx : Context), ctx.Under R → s.InRange ctx.cache →
    Run.Lockstep R budget ctx (pm s) (p s) (p s)

namespace Parser.Lockstep

variable {R : Regime} {budget : Nat} {p pm q qm : Parser}

/-! ## Leaves -/

/-- A leaf that does not see the guard, beside its masked form. -/
theorem leaf (h : ∀ s, (p s).Steady R.guard) : Lockstep R budget p.masked p := by
  intro s ctx _ _
  obtain ⟨ctx', hfinal, hkept⟩ := (h s).ends budget ctx
  unfold Run.Lockstep
  rw [(h s).commutes]
  simp only [Parser.masked]
  cases hrun : (p s).run budget ctx with
  | done outcome ctx₁ =>
      rw [hrun] at hfinal
      cases hfinal
      exact .done hkept
  | raised fault ctx₁ =>
      rw [hrun] at hfinal
      cases hfinal
      exact .raised hkept
  | unfinished =>
      rw [hrun] at hfinal
      cases hfinal

theorem satisfy (test : Value → Action Bool) :
    Lockstep R budget (Parser.satisfy test).masked (Parser.satisfy test) := by
  refine leaf fun s => .bind (.tokenAt s.position) fun token => ?_
  refine .bind (.perform _) fun passed => ?_
  cases passed with
  | false => exact .pure _
  | true =>
      have hadvance : (Parser.advance s).Steady R.guard :=
        .bind (.tokenAt s.position) fun _ => .pure _
      exact hadvance.bind fun _ => .pure _

theorem raising (fault : State → Fault) :
    Lockstep R budget (Parser.masked fun s => Run.raise (fault s)) fun s => Run.raise (fault s) :=
  leaf fun s => .raise (fault s)

theorem popUserData : Lockstep R budget Parser.popUserData.masked Parser.popUserData :=
  leaf fun _ => .bind (.ofExcept _) fun _ => .pure _

/-- A match in place. -/
theorem inPlace (f : State → Outcome) :
    Lockstep R budget (fun s => return f s) fun s => return f s := fun s _ _ _ => .pure (f s)

/-- The settings are the same on both sides only if the guard is. -/
theorem activeSettings (hguard : R.guard = R.settings.guard) :
    Lockstep R budget Parser.activeSettings Parser.activeSettings := by
  intro s ctx hctx _
  have hsame : ctx.withGuard R.guard = ctx := by
    rw [hguard, ← hctx.settings_eq]
    rfl
  have hdone : ∀ outcome : Outcome, Ending.Lockstep R ctx (.done outcome ctx) (.done outcome ctx)
      (.done outcome (ctx.withGuard R.guard)) := fun _ => .done (.refl ctx)
  unfold Run.Lockstep
  rw [hsame] at hdone ⊢
  exact hdone (.matched ctx.session.settings.toValue s)

/-! ## Chaining and choosing -/

theorem noting (notes : List Value) (hp : Lockstep R budget pm p) :
    Lockstep R budget (Parser.noting notes pm) (Parser.noting notes p) := by
  intro s ctx hctx hs
  have hperform : Run.Lockstep R budget ctx (Run.perform ⟨notes, .ok ()⟩)
      (Run.perform ⟨notes, .ok ()⟩) (Run.perform ⟨notes, .ok ()⟩) := by
    have hsteady : (Run.perform ⟨notes, .ok ()⟩).Steady R.guard := .perform _
    obtain ⟨ctx', hfinal, hkept⟩ := hsteady.ends budget ctx
    unfold Run.Lockstep
    rw [hsteady.commutes]
    cases hfinal
    exact .done hkept
  refine hperform.bind ?_
  intro _ ctx' hrun hkept
  cases hrun
  exact hp s _ (hctx.grows hkept.settings_eq (.refl _)) hs

theorem bind {f fm : Value → Parser} (hstep : KeepsStep budget p p) (hp : Lockstep R budget pm p)
    (hf : ∀ value, Lockstep R budget (fm value) (f value)) :
    Lockstep R budget (pm.bind fm) (p.bind f) := by
  intro s ctx hctx hs
  refine (hp s ctx hctx hs).bind ?_
  intro outcome ctx' hrun hkept
  obtain ⟨hgrows, hout⟩ := hstep.done hs hrun
  cases outcome with
  | matched value s' => exact hf value s' ctx' (hctx.grows hkept.settings_eq hgrows) hout.inRange
  | noMatch => exact .pure _

theorem andThen (hstep : KeepsStep budget p p) (hp : Lockstep R budget pm p)
    (hq : Lockstep R budget qm q) : Lockstep R budget (pm.andThen qm) (p.andThen q) :=
  bind hstep hp fun _ => hq

theorem lookahead (hp : Lockstep R budget pm p) :
    Lockstep R budget pm.lookahead p.lookahead := by
  intro s ctx hctx hs
  refine (hp s ctx hctx hs).bind ?_
  intro outcome ctx' _ _
  cases outcome with
  | matched value _ => exact .pure _
  | noMatch => exact .pure _

theorem notFollowedBy (hp : Lockstep R budget pm p) :
    Lockstep R budget pm.notFollowedBy p.notFollowedBy := by
  intro s ctx hctx hs
  refine (hp s ctx hctx hs).bind ?_
  intro outcome ctx' _ _
  cases outcome with
  | matched _ _ => exact .pure _
  | noMatch => exact .pure _

theorem either (hstep : KeepsStep budget p p) (hp : Lockstep R budget pm p)
    (hq : Lockstep R budget qm q) : Lockstep R budget (pm.either qm) (p.either q) := by
  intro s ctx hctx hs
  refine (hp s ctx hctx hs).bind ?_
  intro outcome ctx' hrun hkept
  obtain ⟨hgrows, -⟩ := hstep.done hs hrun
  cases outcome with
  | matched value s' => exact .pure _
  | noMatch => exact hq s ctx' (hctx.grows hkept.settings_eq hgrows) (hs.grows hgrows)

end Parser.Lockstep

end PullParse
