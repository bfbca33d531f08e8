import PullParse.Proofs.Run.Endings
import PullParse.Parser.Entry

/-!
# How a parse ends

A parse whose settings resolve and whose first token can be pulled runs its
parser once, from the first position of the new cache. What it answers is then
settled by how that run has ended and by the settings, and what it leaves in the
context is what the run has left, but for the log, the profile and the settings
of the caller, which are active again.
-/

namespace PullParse

namespace Context

/-- The context in which the parser of a parse runs: its settings are active, the first token has
been pulled, and the start is logged. -/
def started (producer : Producer) (session : Session) (settings : Settings) : Context :=
  ((opened producer { session with settings := settings }).tokenAt 0).2.mapSession fun s =>
    s.logged (.started settings.userData)

/-- The context in which the caller goes on. -/
def restored (caller : Settings) (ctx : Context) : Context :=
  ctx.mapSession fun s => { s with settings := caller }

/-- The context of a parse that is logged and counted at its end. -/
def closed (caller : Settings) (record : LogRecord) (success : Bool) (ctx : Context) : Context :=
  restored caller (ctx.mapSession fun s => (s.logged record).recorded ctx.cache.pulls success)

end Context

namespace Parser

/-- What a parse answers to a failure. -/
def failed (settings : Settings) (fault : Fault) : Except Fault (Value × Bool) :=
  if settings.propagate.truth then .error fault else .ok (settings.errorValue, false)

/-- The ending of a parse, given how its parser has ended. -/
def concluded (caller settings : Settings) :
    Ending Context Outcome → Ending Context (Value × Bool)
  | .done (.matched value s) ctx =>
    .done (value, true) (ctx.closed caller (.finished s.position ctx.cache.pulls) true)
  | .done .noMatch ctx =>
    .ofExcept (failed settings (.noMatch (.int (ctx.cache.length - 1))))
      (ctx.closed caller .failed false)
  | .raised fault ctx =>
    if fault.isHard then
      .ofExcept (failed settings fault) (ctx.closed caller (.aborted fault) false)
    else .raised fault (ctx.restored caller)
  | .unfinished => .unfinished

theorem failure_run (settings : Settings) (fault : Fault) (budget : Nat) (ctx : Context) :
    (failure settings fault).run budget ctx = .ofExcept (failed settings fault) ctx := by
  unfold failure failed
  by_cases h : settings.propagate.truth = true
  · rw [if_pos h, if_pos h]
    rfl
  · rw [if_neg h, if_neg h]
    rfl

/-- What a parse does once its parser has ended, unless a fault that is not hard broke it off. -/
def conclude (settings : Settings) : Except Fault Outcome → Run Context (Value × Bool)
  | .error fault => do
    Run.log (.aborted fault)
    Run.record false
    failure settings fault
  | .ok .noMatch => do
    Run.log .failed
    Run.record false
    let position ← lastPosition
    failure settings (.noMatch (.int position))
  | .ok (.matched value s) => do
    let ctx ← Run.get
    Run.log (.finished s.position ctx.cache.pulls)
    Run.record true
    return (value, true)

theorem parseUnder_eq (settings : Settings) (p : Parser) :
    parseUnder settings p = (do
      let start ← startState settings.userData
      Run.log (.started settings.userData)
      (p start).attempt Fault.isHard >>= conclude settings) := rfl

theorem conclude_run (caller settings : Settings) (x : Run Context Outcome) (budget : Nat)
    (ctx : Context) :
    ((x.attempt Fault.isHard >>= conclude settings).run budget ctx).mapFinal
        (Context.restored caller) =
      concluded caller settings (x.run budget ctx) := by
  have hanswer : ∀ fault (ctx : Context), ((failure settings fault).run budget ctx).mapFinal
      (Context.restored caller) =
        .ofExcept (failed settings fault) (ctx.restored caller) := by
    intro fault ctx
    rw [failure_run]
    cases failed settings fault <;> rfl
  simp only [Run.run_bind, Run.attempt]
  cases x.run budget ctx with
  | done outcome ctx' =>
      cases outcome with
      | matched value s => rfl
      | noMatch => exact hanswer _ _
  | raised fault ctx' =>
      simp only [concluded]
      by_cases hhard : fault.isHard = true
      · rw [if_pos hhard, if_pos hhard]
        exact hanswer _ _
      · rw [if_neg hhard, if_neg hhard]
        rfl
  | unfinished => rfl

/-- A parse whose settings resolve runs under them, and puts those of its caller back. -/
theorem parse_resolved (ctx : Context) {options : Options} {overrides : List (String × Value)}
    {settings : Settings} (h : options.resolve ctx.session.settings overrides = .ok settings)
    (p : Parser) (budget : Nat) :
    (p.parse options overrides).run budget ctx =
      ((parseUnder settings p).run budget
        (ctx.mapSession fun s => { s with settings := settings })).mapFinal
          (Context.restored ctx.session.settings) := by
  show Ending.andThen (.ofExcept (options.resolve ctx.session.settings overrides) ctx) _ = _
  rw [h]
  rfl

/-- A parse whose settings do not resolve does nothing. -/
theorem parse_refused (ctx : Context) {options : Options} {overrides : List (String × Value)}
    {fault : Fault} (h : options.resolve ctx.session.settings overrides = .error fault) (p : Parser)
    (budget : Nat) : (p.parse options overrides).run budget ctx = .raised fault ctx := by
  show Ending.andThen (.ofExcept (options.resolve ctx.session.settings overrides) ctx) _ = _
  rw [h]
  rfl

/-- **A parse runs its parser once and answers as that run ends.** -/
theorem parse_run {session : Session} {settings : Settings} {options : Options}
    {overrides : List (String × Value)}
    (hsettings : options.resolve session.settings overrides = .ok settings)
    {producer : Producer} {token : Token}
    (hfirst : ((Cache.fresh producer).tokenAt 0).1 = .ok token) (p : Parser) (budget : Nat) :
    (p.parse options overrides).run budget (.opened producer session) =
      concluded session.settings settings
        ((p ⟨0, settings.userData⟩).run budget (.started producer session settings)) := by
  have hstart : (startState settings.userData).run budget
      (.opened producer { session with settings := settings }) =
        .done ⟨0, settings.userData⟩
          ((Context.opened producer { session with settings := settings }).tokenAt 0).2 := by
    simp only [startState, Run.run_bind, current, Run.tokenAt, Context.opened, Context.tokenAt,
      hfirst]
    rfl
  rw [parse_resolved (.opened producer session) hsettings]
  show Ending.mapFinal (Context.restored session.settings)
    ((parseUnder settings p).run budget
      (.opened producer { session with settings := settings })) = _
  rw [parseUnder_eq, Run.run_bind, hstart]
  exact conclude_run session.settings settings (p ⟨0, settings.userData⟩) budget
    (.started producer session settings)

/-- A parse whose first token cannot be pulled does not run its parser. -/
theorem parse_unstarted {session : Session} {settings : Settings} {options : Options}
    {overrides : List (String × Value)}
    (hsettings : options.resolve session.settings overrides = .ok settings) {producer : Producer}
    {fault : Fault} (hfirst : ((Cache.fresh producer).tokenAt 0).1 = .error fault) (p : Parser)
    (budget : Nat) :
    (p.parse options overrides).run budget (.opened producer session) =
      .raised fault (.restored session.settings
        ((Context.opened producer { session with settings := settings }).tokenAt 0).2) := by
  have hstart : (startState settings.userData).run budget
      (.opened producer { session with settings := settings }) =
        .raised fault
          ((Context.opened producer { session with settings := settings }).tokenAt 0).2 := by
    simp only [startState, Run.run_bind, current, Run.tokenAt, Context.opened, Context.tokenAt,
      hfirst]
    rfl
  rw [parse_resolved (.opened producer session) hsettings]
  show Ending.mapFinal (Context.restored session.settings)
    ((parseUnder settings p).run budget
      (.opened producer { session with settings := settings })) = _
  rw [parseUnder_eq, Run.run_bind, hstart]
  rfl

/-! ## What a parse leaves behind -/

variable (caller settings : Settings) {e : Ending Context Outcome}

/-- A parse leaves the cache and the journal as its parser has left them. -/
theorem final?_concluded {ctx : Context} (h : e.final? = some ctx) :
    ∃ ctx', (concluded caller settings e).final? = some ctx' ∧ ctx'.cache = ctx.cache ∧
      ctx'.session.journal = ctx.session.journal := by
  cases e with
  | done outcome ctx₁ =>
      cases h
      cases outcome with
      | matched value s => exact ⟨_, rfl, rfl, rfl⟩
      | noMatch => exact ⟨_, Ending.final?_ofExcept _ _, rfl, rfl⟩
  | raised fault ctx₁ =>
      cases h
      simp only [concluded]
      by_cases hhard : fault.isHard = true
      · rw [if_pos hhard]
        exact ⟨_, Ending.final?_ofExcept _ _, rfl, rfl⟩
      · rw [if_neg hhard]
        exact ⟨_, rfl, rfl, rfl⟩
  | unfinished => cases h

theorem final?_of_concluded {ctx : Context} (h : (concluded caller settings e).final? = some ctx) :
    ∃ ctx', e.final? = some ctx' ∧ ctx.cache = ctx'.cache ∧
      ctx.session.journal = ctx'.session.journal := by
  cases hfinal : e.final? with
  | some ctx' =>
      obtain ⟨ctx'', hctx'', hcache, hjournal⟩ := final?_concluded caller
        settings hfinal
      rw [hctx''] at h
      cases h
      exact ⟨ctx', rfl, hcache, hjournal⟩
  | none =>
      cases e with
      | done _ _ => cases hfinal
      | raised _ _ => cases hfinal
      | unfinished => cases h

end Parser

end PullParse
