import PullParse.Proofs.Entry.Conclusion
import PullParse.Proofs.Cache.Streams
import PullParse.Proofs.Grammar.Instrumented
import PullParse.Proofs.Repetition.Loops

/-!
# Settings are scoped to runs

A parse makes its settings active and puts those of its caller back, however it
ends: with an answer, with a fault of its grammar, with one of the first call of
its producer, or because its settings do not resolve. So a parse inside a run
leaves the settings of the run alone, at any depth. What a run changes itself
stays changed until it ends, but a repetition that has started keeps the guard
that it has read.
-/

namespace PullParse

/-- Settings that are active anyhow can be put back. -/
theorem Context.restored_self (ctx : Context) : ctx.restored ctx.session.settings = ctx := rfl

theorem Context.restored_of_eq {caller : Settings} {ctx : Context}
    (h : ctx.session.settings = caller) : ctx.restored caller = ctx := by
  rw [← h, restored_self]

namespace Parser

variable {budget : Nat}

/-- However a parse ends, the settings of its caller are active again. -/
theorem settings_parse (p : Parser) (options : Options) (overrides : List (String × Value))
    {ctx ctx' : Context}
    (h : ((p.parse options overrides).run budget ctx).final? = some ctx') :
    ctx'.session.settings = ctx.session.settings := by
  cases hresolve : options.resolve ctx.session.settings overrides with
  | error fault =>
      rw [parse_refused ctx hresolve] at h
      cases h
      rfl
  | ok settings =>
      rw [parse_resolved ctx hresolve, Ending.final?_mapFinal] at h
      obtain ⟨inner, -, rfl⟩ := Option.map_eq_some_iff.mp h
      rfl

/-- A parse inside a run leaves the settings of the run alone. -/
theorem settings_nested (p : Parser) (producer : Producer) (options : Options)
    (overrides : List (String × Value)) (s : State) {ctx ctx' : Context}
    (h : ((p.nested producer options overrides s).run budget ctx).final? = some ctx') :
    ctx'.session.settings = ctx.session.settings := by
  have hinner : ∀ inner, ((p.parse options overrides).run budget
      (.opened producer ctx.session)).final? = some inner →
        inner.session.settings = ctx.session.settings :=
    fun inner => settings_parse p options overrides
  simp only [nested, Run.run_bind, Run.within] at h
  generalize (p.parse options overrides).run budget (.opened producer ctx.session) = e at h hinner
  cases e with
  | done answer inner =>
      cases h
      exact hinner inner rfl
  | raised fault inner =>
      cases h
      exact hinner inner rfl
  | unfinished => cases h

/-- Puts the settings back that were active before `p`, however it ends. -/
def puttingBack (p : Parser) : Parser := fun s => do
  let old ← Run.settings
  (p s).restoring (Context.restored old)

/-- After a parse inside there is nothing to be put back. -/
theorem puttingBack_nested (p : Parser) (producer : Producer) (options : Options)
    (overrides : List (String × Value)) :
    (p.nested producer options overrides).puttingBack = p.nested producer options overrides := by
  funext s
  ext budget ctx
  have hsettings : ∀ ctx',
      ((p.nested producer options overrides s).run budget ctx).final? = some ctx' →
        ctx'.restored ctx.session.settings = ctx' := fun ctx' h =>
    Context.restored_of_eq (settings_nested p producer options overrides s h)
  show ((p.nested producer options overrides s).run budget ctx).mapFinal
    (Context.restored ctx.session.settings) = _
  generalize (p.nested producer options overrides s).run budget ctx = e at hsettings ⊢
  cases e with
  | done outcome ctx' => rw [Ending.mapFinal, hsettings ctx' rfl]
  | raised fault ctx' => rw [Ending.mapFinal, hsettings ctx' rfl]
  | unfinished => rfl

end Parser

/-- Putting the settings back after every parse inside changes nothing in any grammar. -/
theorem Grammar.observed_puttingBack (rules : Rules) (g : Grammar) :
    g.observed (.onParses Parser.puttingBack) rules = g.parser rules := by
  refine observed_of_fixed (fun rule part => ?_) rules g
  cases part with
  | nested inner producer options overrides =>
      exact Parser.puttingBack_nested (inner.toParser rule) producer options overrides
  | _ => rfl

/-- **Settings are scoped to runs.** However a parse ends, with whatever options, parser and
producer, the settings that are active afterwards are those from before. So are they after a parse
inside a run, and to put them back after every such parse of a grammar, at any depth, changes
nothing. A repetition ends as its rounds say under the guard of the context in which its loop
starts, behind the first match where there has to be one, and whatever settings its rounds leave
active. -/
theorem settings_scoped (budget : Nat) :
    (∀ (p : Parser) (options : Options) (overrides : List (String × Value)) (ctx ctx' : Context),
        ((p.parse options overrides).run budget ctx).final? = some ctx' →
          ctx'.session.settings = ctx.session.settings) ∧
      (∀ (p : Parser) (producer : Producer) (options : Options)
          (overrides : List (String × Value)) (s : State) (ctx ctx' : Context),
        ((p.nested producer options overrides s).run budget ctx).final? = some ctx' →
          ctx'.session.settings = ctx.session.settings) ∧
      (∀ (rules : Rules) (g : Grammar),
        g.observed (.onParses Parser.puttingBack) rules = g.parser rules) ∧
      ∀ (r : Repetition) (s : State) (ctx : Context) (e : Ending Context Outcome),
        (r.parser s).run budget ctx = e ↔ r.Ends budget s ctx e := by
  refine ⟨?_, ?_, ?_, ?_⟩
  · exact fun p options overrides ctx ctx' => Parser.settings_parse p options overrides
  · exact fun p producer options overrides s ctx ctx' =>
      Parser.settings_nested p producer options overrides s
  · exact Grammar.observed_puttingBack
  · exact fun r s ctx e => Repetition.ends_iff.symm

/-- Switches the guard of repetitions off. -/
def unguarding : Parser := .changeSettings [("guard_empty_loops", .bool false)]

/-- A parser that changes the settings and breaks off, in a parse inside a parse, leaves no trace in
the settings; and a repetition whose rounds consume nothing stalls in the first one although that
round has switched the guard off. -/
theorem settings_scoped_unguarding :
    (∃ ctx, (((unguarding.andThen ((unguarding.andThen (.fail .null)).nested (.ofTokens [])
          .active [])).parse .active [("error_value", .int 1)]).run 4
            (.opened (.ofTokens []) .fresh)).final? = some ctx ∧
        ctx.session.settings = .standard) ∧
      ∃ e, (Repetition.many unguarding).Ends 4 ⟨0, .null⟩ (.opened (.ofTokens []) .fresh) e ∧
        e.result? = some (.error (.stalled (.str "many") (.int 0))) := by
  obtain ⟨hparse, -, -, hends⟩ := settings_scoped 4
  constructor
  · have hresult : ((((unguarding.andThen ((unguarding.andThen (.fail .null)).nested (.ofTokens [])
        .active [])).parse .active [("error_value", .int 1)]).run 4
          (.opened (.ofTokens []) .fresh)).result?) =
        some (.error (.parse .null (.int 0))) := rfl
    obtain ⟨ctx, hrun⟩ := Ending.exists_raised_of_result? hresult
    exact ⟨ctx, by rw [hrun]; rfl, hparse _ _ _ _ ctx (by rw [hrun]; rfl)⟩
  · exact ⟨_, (hends _ _ _ _).mp rfl, rfl⟩

end PullParse
