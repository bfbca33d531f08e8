import PullParse.Proofs.Correspondence.Grammar

/-!
# Steps in correspondence

The parsers without parts read tokens, perform actions, raise faults, and look at
the settings or change them. Where contexts that belong together still do so
after each of these steps, such a parser corresponds to itself.
-/

namespace PullParse

/-- Contexts that belong together take the same steps, and belong together afterwards. -/
structure Correspondence.Stepwise (C : Correspondence) (budget : Nat) : Prop where
  states_eq : C.states = Eq
  broken : ∀ {ctx ctx'}, C.contexts ctx ctx' → ∀ fault, C.broken fault ctx ctx'
  tokenAt : ∀ position,
    Run.Corresponds C budget Eq (Run.tokenAt position) (Run.tokenAt position)
  notes : ∀ {ctx ctx'}, C.contexts ctx ctx' → ∀ notes : List Value,
    C.contexts (ctx.mapSession fun s => s.writeNotes notes)
      (ctx'.mapSession fun s => s.writeNotes notes)
  settings_eq : ∀ {ctx ctx'}, C.contexts ctx ctx' →
    ctx'.session.settings = ctx.session.settings
  setSettings : ∀ {ctx ctx'}, C.contexts ctx ctx' → ∀ new : Settings,
    C.contexts (ctx.mapSession fun s => { s with settings := new })
      (ctx'.mapSession fun s => { s with settings := new })

namespace Correspondence.Stepwise

variable {α : Type} {C : Correspondence} {budget : Nat}

/-! ## Single steps -/

theorem perform (h : C.Stepwise budget) (x : Action α) :
    Run.Corresponds C budget Eq (Run.perform x) (Run.perform x) :=
  fun _ _ hctx => .ofExcept x.result (h.notes hctx x.notes) (h.broken (h.notes hctx x.notes))

theorem ofExcept (h : C.Stepwise budget) (result : Except Fault α) :
    Run.Corresponds C budget Eq (Run.ofExcept result) (Run.ofExcept result) :=
  fun _ _ hctx => .ofExcept result hctx (h.broken hctx)

theorem settings (h : C.Stepwise budget) :
    Run.Corresponds C budget Eq Run.settings Run.settings :=
  fun _ _ hctx => .done hctx (h.settings_eq hctx).symm

theorem raised (h : C.Stepwise budget) {same : α → α → Prop} (fault : Fault) :
    Run.Corresponds C budget same (Run.raise fault) (Run.raise fault) :=
  fun _ _ hctx => .raised (h.broken hctx fault)

theorem outcome (h : C.Stepwise budget) (o : Outcome) :
    Run.Corresponds C budget (Outcome.Both C.states) (Pure.pure o) (Pure.pure o) := by
  cases o with
  | matched value s => exact .pure (.matched value (by rw [h.states_eq]))
  | noMatch => exact .pure .noMatch

/-! ## Parsers without parts -/

/-- It is enough to start both parsers from the same state. -/
theorem ofSame (h : C.Stepwise budget) {p q : Parser}
    (hpq : ∀ s, Run.Corresponds C budget (Outcome.Both C.states) (p s) (q s)) :
    Parser.Corresponds C budget p q := by
  intro s s' hs
  rw [h.states_eq] at hs
  obtain rfl := hs
  exact hpq s

theorem satisfy (h : C.Stepwise budget) (test : Value → Action Bool) :
    Parser.Corresponds C budget (.satisfy test) (.satisfy test) := by
  refine h.ofSame fun s => ?_
  apply (h.tokenAt s.position).bind
  rintro token _ rfl
  apply (h.perform (test token.cls)).bind
  rintro passes _ rfl
  cases passes with
  | false => exact h.outcome .noMatch
  | true =>
      -- the token is read again to see whether it is the end
      have hadvance : Run.Corresponds C budget Eq (Parser.advance s) (Parser.advance s) := by
        apply (h.tokenAt s.position).bind
        rintro token' _ rfl
        exact .pure rfl
      apply hadvance.bind
      rintro next _ rfl
      exact h.outcome (.matched token.value next)

theorem popUserData (h : C.Stepwise budget) :
    Parser.Corresponds C budget Parser.popUserData Parser.popUserData := by
  refine h.ofSame fun s => ?_
  apply (h.ofExcept _).bind
  rintro ⟨front, rest⟩ _ rfl
  exact h.outcome (.matched front { s with userData := rest })

theorem activeSettings (h : C.Stepwise budget) :
    Parser.Corresponds C budget Parser.activeSettings Parser.activeSettings := by
  refine h.ofSame fun s => ?_
  apply h.settings.bind
  rintro active _ rfl
  exact h.outcome (.matched active.toValue s)

theorem changeSettings (h : C.Stepwise budget) (changes : List (String × Value)) :
    Parser.Corresponds C budget (.changeSettings changes) (.changeSettings changes) := by
  refine h.ofSame fun s => ?_
  apply h.settings.bind
  rintro active _ rfl
  apply (h.ofExcept (active.override changes)).bind
  rintro changed _ rfl
  have hset : Run.Corresponds C budget Eq (Run.setSettings changed) (Run.setSettings changed) :=
    fun _ _ hctx => .done (h.setSettings hctx changed) rfl
  apply hset.bind
  rintro _ _ _
  exact h.outcome (.matched .null s)

/-- A parser without parts corresponds to itself. -/
theorem leaf (h : C.Stepwise budget) (g : Grammar) (rule : String → List Value → Parser)
    (hg : g.IsLeaf) : Parser.Corresponds C budget (g.toParser rule) (g.toParser rule) := by
  cases g with
  | satisfy test => exact h.satisfy test
  | pure value => exact h.ofSame fun s => h.outcome (.matched value s)
  | raise fault => exact h.ofSame fun s => h.raised fault
  | fail reason => exact h.ofSame fun s => h.raised (.parse reason (.int s.position))
  | getUserData => exact h.ofSame fun s => h.outcome (.matched s.userData s)
  | putUserData value =>
      exact h.ofSame fun s => h.outcome (.matched value { s with userData := value })
  | popUserData => exact h.popUserData
  | activeSettings => exact h.activeSettings
  | changeSettings changes => exact h.changeSettings changes
  | stateText => exact h.ofSame fun s => h.outcome (.matched (.str s.display) s)
  | _ => exact hg.elim

end Correspondence.Stepwise

end PullParse
