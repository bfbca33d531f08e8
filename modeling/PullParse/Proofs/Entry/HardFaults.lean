import PullParse.Proofs.Accounts.Books
import PullParse.Proofs.Cache.Histories
import PullParse.Proofs.Entry.Answers
import PullParse.Proofs.Entry.Scoping

/-!
# Hard faults under quiet settings

Settings that do not ask for failures to be raised have the placeholder answered
in their place. This covers the run of the grammar and with it every call of the
producer but the first one: that call is made to find the initial state, before
the run whose failures are answered, so a hard fault of it is raised whatever the
settings say, and nothing is logged or counted.
-/

namespace PullParse

/-! ## Calls of the producer during a run -/

namespace Producer

/-- The first calls have all been answered with a token. -/
def Answered (p : Producer) (n : Nat) : Prop :=
  ∀ k < n, ∃ token, (p.after k).next.1.bind Token.ofPair = .ok token

/-- A producer has been called some times, and each time it has answered with a token. -/
def Served (p p' : Producer) : Prop := ∃ n, p' = p.after n ∧ p.Answered n

/-- The last call of a producer was the first one without a token, but with a fault. -/
def Failed (p : Producer) (fault : Fault) (p' : Producer) : Prop :=
  ∃ n, p' = p.after (n + 1) ∧ p.Answered n ∧ (p.after n).next.1.bind Token.ofPair = .error fault

theorem answered_zero (p : Producer) : p.Answered 0 :=
  fun k hk => absurd hk (Nat.not_lt_zero k)

theorem Answered.succ {p : Producer} {n : Nat} (h : p.Answered n) {token : Token}
    (htoken : (p.after n).next.1.bind Token.ofPair = .ok token) : p.Answered (n + 1) := by
  intro k hk
  rcases Nat.lt_succ_iff_lt_or_eq.mp hk with hlt | rfl
  · exact h k hlt
  · exact ⟨token, htoken⟩

end Producer

/-- A read calls the producer once, for the token that it answers, or does not call it. -/
theorem Cache.Answers.producer_eq {c c' : Cache} {position : Int} {answer : Except Fault Token}
    (h : c.Answers position answer c') :
    c'.producer = c.producer ∨
      c'.producer = c.producer.next.2 ∧ c.producer.next.1.bind Token.ofPair = answer := by
  cases h with
  | pulled _ _ h => exact .inr ⟨rfl, h⟩
  | spoilt _ _ h => exact .inr ⟨rfl, h⟩
  | _ => exact .inl rfl

/-- A run either gets a token from every call of its producer, or is broken off by the first call
that has none, with the fault of that call. -/
theorem Producer.served_upheld (budget : Nat) :
    Upheld budget (fun (p : Producer) ctx => p.Served ctx.cache.producer)
      (fun p fault ctx => p.Served ctx.cache.producer ∨ p.Failed fault ctx.cache.producer) where
  starts ctx := ⟨ctx.cache.producer, 0, rfl, ctx.cache.producer.answered_zero⟩
  broken h _ := .inl h
  tokenAt {p ctx} h position := by
    obtain ⟨cache, session⟩ := ctx
    obtain ⟨n, hproducer, hanswered⟩ := h
    simp only [Run.tokenAt, Context.tokenAt]
    rcases (cache.answers_tokenAt position).producer_eq with hsame | ⟨hnext, hread⟩
    · have hserved : p.Served (cache.tokenAt position).2.producer :=
        ⟨n, hsame.trans hproducer, hanswered⟩
      cases (cache.tokenAt position).1 with
      | ok token => exact .done hserved
      | error fault => exact .raised (.inl hserved)
    · have hproducer' : (cache.tokenAt position).2.producer = p.after (n + 1) := by
        rw [hnext]
        exact congrArg (fun q => q.next.2) hproducer
      have hanswer : (p.after n).next.1.bind Token.ofPair = (cache.tokenAt position).1 := by
        rw [← hread]
        exact congrArg (fun q => q.next.1.bind Token.ofPair) hproducer.symm
      cases hresult : (cache.tokenAt position).1 with
      | ok token => exact .done ⟨n + 1, hproducer', hanswered.succ (hanswer.trans hresult)⟩
      | error fault =>
          exact .raised (.inr ⟨n, hproducer', hanswered, hanswer.trans hresult⟩)
  quiet h _ _ _ := h
  quiet_left h _ _ _ := h
  parse {p ctx} _ producer options overrides _ h := by
    generalize (Parser.parse _ options overrides).run budget (.opened producer ctx.session) = e
    cases e with
    | done answer inner => exact .done h
    | raised fault inner => exact .raised (.inl h)
    | unfinished => exact .unfinished

/-- How a run has ended, as far as the calls of its producer go. -/
abbrev Producer.Ended (p : Producer) (e : Ending Context Outcome) : Prop :=
  e.Leaves (fun ctx => p.Served ctx.cache.producer) fun fault ctx =>
    p.Served ctx.cache.producer ∨ p.Failed fault ctx.cache.producer

/-- If a call that has no token has been made, it was the last one, and its fault has ended the
run. -/
theorem Producer.Ended.raised_of_called {p : Producer} {e : Ending Context Outcome}
    (h : p.Ended e) {k : Nat} {fault : Fault}
    (hfault : (p.after k).next.1.bind Token.ofPair = .error fault) {last : Context}
    (hlast : e.final? = some last) (hcalled : p.calls + k < last.cache.producer.calls) :
    ∃ last, e = .raised fault last := by
  have hanswered : ∀ {n}, p.Answered n → n ≤ k := by
    intro n hn
    by_contra hlt
    obtain ⟨token, htoken⟩ := hn k (not_le.mp hlt)
    rw [hfault] at htoken
    cases htoken
  have hserved : ¬ p.Served last.cache.producer := by
    rintro ⟨n, hproducer, hn⟩
    have := hanswered hn
    rw [hproducer, calls_after] at hcalled
    omega
  cases h with
  | done hdone =>
      obtain rfl := Option.some.inj hlast
      exact absurd hdone hserved
  | @raised fault' ctx hraised =>
      obtain rfl := Option.some.inj hlast
      rcases hraised with hdone | ⟨n, hproducer, hn, herror⟩
      · exact absurd hdone hserved
      · -- all calls before the one without a token have one
        have hnk : n = k := by
          have := hanswered hn
          rw [hproducer, calls_after] at hcalled
          omega
        rw [hnk, hfault] at herror
        cases herror
        exact ⟨_, rfl⟩
  | unfinished => cases hlast

/-! ## The first call and the later ones -/

/-- What is no token is no hard fault. -/
theorem Token.isHard_ofPair {v : Value} {fault : Fault} (h : ofPair v = .error fault) :
    fault.isHard = false := by
  unfold ofPair at h
  split at h
  · cases h
  · split at h
    · cases h
      rfl
    · rename_i es _
      unfold ofParts at h
      split at h <;> cases h <;> rfl

/-- A hard fault in the place of a token is what the producer has raised. -/
theorem Producer.bind_ofPair_eq_error_iff {answer : Except Fault Value} {fault : Fault}
    (hhard : fault.isHard = true) :
    answer.bind Token.ofPair = .error fault ↔ answer = .error fault := by
  cases answer with
  | error fault' =>
      show Except.error fault' = .error fault ↔ _
      rw [Except.error.injEq, Except.error.injEq]
  | ok v =>
      constructor
      · intro h
        rw [Token.isHard_ofPair (show Token.ofPair v = .error fault from h)] at hhard
        cases hhard
      · intro h
        cases h

/-- The first read of a fresh cache calls the producer, and answers as it does. -/
theorem Cache.tokenAt_zero_fresh (producer : Producer) :
    ((Cache.fresh producer).tokenAt 0).1 = producer.next.1.bind Token.ofPair ∧
      ((Cache.fresh producer).tokenAt 0).2.producer = producer.after 1 := by
  rw [show (Cache.fresh producer).tokenAt 0 = (Cache.fresh producer).pull from
    Cache.tokenAt_length rfl, Cache.pull_eq]
  show _ = producer.next.1.bind Token.ofPair ∧ _
  split
  case h_1 fault h => exact ⟨h.symm, rfl⟩
  case h_2 token h => exact ⟨h.symm, rfl⟩

theorem Producer.served_started {producer : Producer} {token : Token}
    (hfirst : producer.next.1.bind Token.ofPair = .ok token) (session : Session)
    (settings : Settings) :
    producer.Served (Context.started producer session settings).cache.producer :=
  ⟨1, (Cache.tokenAt_zero_fresh producer).2, producer.answered_zero.succ hfirst⟩

/-- Under quiet settings the placeholder is answered to every failure. -/
theorem Parser.failed_of_quiet {settings : Settings} (hquiet : settings.propagate.truth = false)
    (fault : Fault) : failed settings fault = .ok (settings.errorValue, false) := by
  rw [failed, hquiet]
  rfl

/-- Under quiet settings a parse that has got past its first call raises no hard fault. -/
theorem Parser.result?_concluded_ne_hard (caller : Settings) {settings : Settings}
    (hquiet : settings.propagate.truth = false) {fault : Fault} (hhard : fault.isHard = true)
    (e : Ending Context Outcome) : (concluded caller settings e).result? ≠ some (.error fault) := by
  intro h
  cases e with
  | done outcome ctx =>
      cases outcome with
      | matched value s => cases h
      | noMatch =>
          rw [result?_concluded_noMatch, failed_of_quiet hquiet] at h
          cases h
  | raised fault' ctx =>
      by_cases hhard' : fault'.isHard = true
      · rw [result?_concluded_hard caller hhard', failed_of_quiet hquiet] at h
        cases h
      · rw [result?_concluded_foreign caller (Bool.eq_false_iff.mpr hhard')] at h
        cases h
        exact hhard' hhard
  | unfinished => cases h

namespace Grammar

variable (rules : Rules) (g : Grammar) {producer : Producer} {session : Session}
variable {settings : Settings} {options : Options} {overrides : List (String × Value)}
variable (hsettings : options.resolve session.settings overrides = .ok settings)

include hsettings in
/-- A fault of the first call is raised as it is, before anything is logged or counted. -/
theorem run_of_first_error {fault : Fault}
    (hfirst : producer.next.1.bind Token.ofPair = .error fault) (budget : Nat) :
    ∃ ctx, ((g.parser rules).parse options overrides).run budget (.opened producer session) =
        .raised fault ctx ∧
      ctx.cache.producer = producer.after 1 ∧ ctx.session.settings = session.settings ∧
      ctx.session.accounts = session.accounts := by
  obtain ⟨hanswer, hproducer⟩ := Cache.tokenAt_zero_fresh producer
  exact ⟨_, Parser.parse_unstarted hsettings (hanswer.trans hfirst) _ _, hproducer, rfl,
    Context.accounts_tokenAt 0 (.opened producer { session with settings := settings })⟩

include hsettings in
/-- A hard fault of the run is answered by the placeholder, and counted as one failure. -/
theorem run_of_hard {budget : Nat} (hquiet : settings.propagate.truth = false) {token : Token}
    (hfirst : producer.next.1.bind Token.ofPair = .ok token) {fault : Fault} {last : Context}
    (hrun : g.initialRun rules producer session budget settings = .raised fault last)
    (hhard : fault.isHard = true) :
    ∃ ctx, ((g.parser rules).parse options overrides).run budget (.opened producer session) =
        .done (settings.errorValue, false) ctx ∧
      ctx.session.settings = session.settings ∧
      ctx.session.profiler = last.session.profiler.record last.cache.pulls false ∧
      last.session.profiler.active = session.profiler.active := by
  have hactive := g.active_started rules ⟨0, settings.userData⟩ (congrArg Ending.final? hrun)
  rw [Parser.parse_run hsettings (Cache.tokenAt_fresh hfirst)]
  rw [initialRun] at hrun
  rw [hrun, Parser.concluded, if_pos hhard, Parser.failed_of_quiet hquiet]
  exact ⟨_, rfl, rfl, rfl, hactive⟩

include hsettings in
/-- A call behind the first one that raises a fault breaks the run off with that fault. -/
theorem initialRun_of_later_error {budget k : Nat} (hk : 0 < k) {fault : Fault}
    (hfault : (producer.after k).next.1 = .error fault) {ctx : Context}
    (hfinal : (((g.parser rules).parse options overrides).run budget
      (.opened producer session)).final? = some ctx)
    (hcalled : producer.calls + k < ctx.cache.producer.calls) :
    ∃ last, g.initialRun rules producer session budget settings = .raised fault last := by
  have hanswer : (producer.after k).next.1.bind Token.ofPair = .error fault := by
    rw [hfault]
    rfl
  cases hfirst : producer.next.1.bind Token.ofPair with
  | error fault' =>
      -- then the first call has been the last one
      obtain ⟨ctx', hrun, hproducer, -⟩ := run_of_first_error rules g hsettings hfirst budget
      rw [hrun] at hfinal
      obtain rfl := Option.some.inj hfinal
      rw [hproducer, Producer.calls_after] at hcalled
      omega
  | ok token =>
      rw [Parser.parse_run hsettings (Cache.tokenAt_fresh hfirst)] at hfinal
      obtain ⟨last, hlast, hcache, -⟩ := Parser.final?_of_concluded _ _ hfinal
      rw [hcache] at hcalled
      have hended : producer.Ended (g.initialRun rules producer session budget settings) :=
        Producer.served_upheld budget |>.grammar rules g producer ⟨0, settings.userData⟩
          (producer.served_started hfirst session settings)
      exact hended.raised_of_called hanswer hlast hcalled

end Grammar

/-- **Hard faults under quiet settings.** Take a parse whose settings resolve and do not ask for
failures to be raised. A hard fault is raised if the first call of the producer raises it, and in no
other way. A first call without a token ends the parse with the fault of that call, and with the log
and the profile as they were. Otherwise, if a hard fault ends the run of the grammar, the parse
answers the placeholder without success and counts one failure in the accumulator that was active
before, with the tokens that it has pulled. A fault that a later call raises, if that call is made,
ends the run of the grammar, so a hard one is answered like that as well. -/
theorem hard_faults_answered (rules : Rules) (g : Grammar) (producer : Producer)
    (session : Session) (settings : Settings) (options : Options)
    (overrides : List (String × Value))
    (hsettings : options.resolve session.settings overrides = .ok settings)
    (hquiet : settings.propagate.truth = false) (budget : Nat) :
    (∀ fault, fault.isHard = true →
        (g.answer? rules producer session budget options overrides = some (.error fault) ↔
          producer.next.1 = .error fault)) ∧
      (∀ fault, producer.next.1.bind Token.ofPair = .error fault →
        ∃ ctx, ((g.parser rules).parse options overrides).run budget (.opened producer session) =
            .raised fault ctx ∧
          ctx.session.settings = session.settings ∧ ctx.session.accounts = session.accounts) ∧
      (∀ token fault last, producer.next.1.bind Token.ofPair = .ok token →
        g.initialRun rules producer session budget settings = .raised fault last →
        fault.isHard = true →
        ∃ ctx, ((g.parser rules).parse options overrides).run budget (.opened producer session) =
            .done (settings.errorValue, false) ctx ∧
          ctx.session.settings = session.settings ∧
          ctx.session.profiler = last.session.profiler.record last.cache.pulls false ∧
          last.session.profiler.active = session.profiler.active) ∧
      ∀ k fault ctx, 0 < k → (producer.after k).next.1 = .error fault →
        (((g.parser rules).parse options overrides).run budget
          (.opened producer session)).final? = some ctx →
        producer.calls + k < ctx.cache.producer.calls →
        ∃ last, g.initialRun rules producer session budget settings = .raised fault last := by
  refine ⟨?_, ?_, ?_, ?_⟩
  · intro fault hhard
    rw [← Producer.bind_ofPair_eq_error_iff hhard]
    cases hfirst : producer.next.1.bind Token.ofPair with
    | error fault' =>
        obtain ⟨ctx, hrun, -⟩ := Grammar.run_of_first_error rules g hsettings hfirst budget
        rw [Grammar.answer?, hrun]
        simp only [Ending.result?, Option.some.injEq, Except.error.injEq]
    | ok token =>
        rw [Grammar.answer?_eq_concluded rules g producer session budget hfirst hsettings]
        constructor
        · intro h
          exact absurd h (Parser.result?_concluded_ne_hard session.settings hquiet hhard _)
        · intro h
          cases h
  · intro fault hfirst
    obtain ⟨ctx, hrun, -, hrest⟩ := Grammar.run_of_first_error rules g hsettings hfirst budget
    exact ⟨ctx, hrun, hrest⟩
  · intro token fault last hfirst hrun hhard
    exact Grammar.run_of_hard rules g hsettings hquiet hfirst hrun hhard
  · intro k fault ctx hk hfault hfinal hcalled
    exact Grammar.initialRun_of_later_error rules g hsettings hk hfault hfinal hcalled

/-- Two tokens. -/
def twoTokens : Grammar := .andThen .anyToken .anyToken

/-- Raises a parse fault in the call with that number. -/
def raisingAt (call : Nat) : Producer :=
  .ofAnswers ((Array.replicate call (.ok (.pair (.str "a") .null))).push
    (.error (.parse (.str "boom") .null)))

/-- Under quiet settings the fault of the second call is answered by the placeholder and counted as
a failure, with the one token that has been pulled. -/
theorem hard_faults_answered_second :
    ∃ ctx, ((twoTokens.parser fun _ _ => .eof).parse .active
        [("error_propagation", .bool false), ("error_value", .int 7)]).run 4
          (.opened (raisingAt 1) { Session.fresh with profiler := Profiler.empty.opened.2 }) =
            .done (.int 7, false) ctx ∧
      ctx.session.profiler.get? 0 = some ⟨1, 0, 1, 1⟩ := by
  obtain ⟨-, -, hhard, hlater⟩ := hard_faults_answered (fun _ _ => .eof) twoTokens (raisingAt 1)
    { Session.fresh with profiler := Profiler.empty.opened.2 }
    { Settings.standard with propagate := .bool false, errorValue := .int 7 } .active
    [("error_propagation", .bool false), ("error_value", .int 7)] rfl rfl 4
  obtain ⟨last, hrun⟩ := hlater 1 (.parse (.str "boom") .null) _ Nat.one_pos rfl rfl (by decide)
  obtain ⟨ctx, hanswer, -, hcounted, -⟩ := hhard ⟨.str "a", .null⟩ _ last rfl hrun rfl
  refine ⟨ctx, hanswer, ?_⟩
  cases hrun
  rw [hcounted]
  rfl

/-- The same fault of the first call is raised under the same settings. -/
theorem hard_fault_of_first_call_raised :
    ¬ ∀ (rules : Rules) (g : Grammar) (producer : Producer) (session : Session)
      (settings : Settings) (options : Options) (overrides : List (String × Value)),
      options.resolve session.settings overrides = .ok settings →
      settings.propagate.truth = false → ∀ (budget : Nat) (fault : Fault), fault.isHard = true →
      g.answer? rules producer session budget options overrides ≠ some (.error fault) := by
  intro hnever
  exact hnever (fun _ _ => .eof) twoTokens (raisingAt 0) .fresh
    { Settings.standard with propagate := .bool false } .active
    [("error_propagation", .bool false)] rfl rfl 4 (.parse (.str "boom") .null) rfl rfl

end PullParse
