import PullParse.Proofs.Grammar.Instrumented
import PullParse.Proofs.Position.Repetition
import PullParse.Proofs.Run.Endings

/-!
# Positions stay in range

A monitor in front of every part of a grammar checks each state that the part is
handed and each state that it matches with, and gives an alarm if one is out of
range, goes back, or skips a token. Whatever the grammar and whatever its
producer does, no monitor ever gives the alarm: the monitored run is the run
itself.
-/

namespace PullParse

namespace Parser

/-! ## Parses inside a run -/

theorem startState_done {u : Value} {budget : Nat} {ctx ctx' : Context} {s : State}
    (h : (startState u).run budget ctx = .done s ctx') : s = ⟨0, u⟩ := by
  simp only [startState, Run.run_bind, current, Run.tokenAt] at h
  cases hread : ctx.tokenAt 0 with
  | mk answer ctx₁ =>
      rw [hread] at h
      cases answer with
      | ok token =>
          cases h
          rfl
      | error fault => cases h

/-- Parsers that run in the same way from the first position on parse in the same way. -/
theorem parse_congr {p q : Parser} {budget : Nat}
    (h : ∀ u ctx, (q ⟨0, u⟩).run budget ctx = (p ⟨0, u⟩).run budget ctx) (options : Options)
    (overrides : List (String × Value)) (ctx : Context) :
    (parse q options overrides).run budget ctx = (parse p options overrides).run budget ctx := by
  have hunder : ∀ settings ctx, (parseUnder settings q).run budget ctx =
      (parseUnder settings p).run budget ctx := by
    intro settings ctx
    rw [parseUnder, parseUnder, Run.run_bind, Run.run_bind]
    cases hstart : (startState settings.userData).run budget ctx with
    | done s ctx' =>
        rw [startState_done hstart]
        simp only [Ending.andThen, Run.run_bind, Run.attempt, h]
    | raised fault ctx' => rfl
    | unfinished => rfl
  simp only [parse, Run.withSettings, Run.run_bind, Run.restoring, hunder]

/-- A parse of another producer leaves this cache alone. -/
theorem KeepsStep.nested {budget : Nat} {p q : Parser} (h : KeepsStep budget p q)
    (producer : Producer) (options : Options) (overrides : List (String × Value)) :
    KeepsStep budget (p.nested producer options overrides)
      (q.nested producer options overrides) := by
  intro origin s ctx hs
  have hstart : ∀ u ctx, (q ⟨0, u⟩).run budget ctx = (p ⟨0, u⟩).run budget ctx := by
    intro u ctx
    exact (h ⟨0, u⟩ ⟨0, u⟩ ctx (State.inRange_start _ _).onTrack).eq
  have hparse := parse_congr hstart options overrides (.opened producer ctx.session)
  constructor
  · simp only [Parser.nested, Run.run_bind, Run.within, hparse]
  · simp only [Parser.nested, Run.run_bind, Run.within]
    cases (parse p options overrides).run budget (.opened producer ctx.session) with
    | done answer inner => exact .done (.refl _) hs
    | raised fault inner => exact .raised (.refl _)
    | unfinished => exact .unfinished

/-! ## Monitors -/

/-- Runs `p`, with the alarm in place of a run from a state that is out of range or ahead of the
cache, and in place of a match with a state that is out of range, before the first one, or behind
a token that is not cached or the end. -/
def monitored (alarm : Ending Context Outcome) (p : Parser) : Parser := fun s =>
  ⟨fun budget ctx =>
    if s.InRange ctx.cache ∧ ¬ctx.cache.Ahead s.position then
      match (p s).run budget ctx with
      | .done (.matched value s') ctx' =>
        if s'.InRange ctx'.cache ∧ ctx'.cache.Passes s s' then .done (.matched value s') ctx'
        else alarm
      | e => e
    else alarm⟩

/-- The monitor of a parser in step never gives the alarm. -/
theorem KeepsStep.monitored {budget : Nat} {p q : Parser} (h : KeepsStep budget p q)
    (alarm : Ending Context Outcome) : KeepsStep budget p (q.monitored alarm) := by
  intro origin s ctx hs
  have hself := h s s ctx hs.inRange.onTrack
  refine ⟨?_, (h origin s ctx hs).grown⟩
  have hgrown := hself.grown
  simp only [Parser.monitored]
  rw [if_pos ⟨hs.inRange, hs.inRange.not_ahead⟩, hself.eq]
  cases hrun : (p s).run budget ctx with
  | done outcome ctx' =>
      rw [hrun] at hgrown
      cases hgrown with
      | done _ hgood =>
          cases outcome with
          | matched value s' => exact if_pos ⟨hgood.inRange, hgood.passes⟩
          | noMatch => rfl
  | raised fault ctx' => rfl
  | unfinished => rfl

end Parser

/-! ## Grammars -/

/-- A grammar keeps step with itself under monitors, if its rules do. -/
theorem Grammar.keepsStep_monitored {budget : Nat} (alarm : Ending Context Outcome)
    {rule rule' : String → List Value → Parser}
    (hrule : ∀ name args, Parser.KeepsStep budget (rule name args) (rule' name args))
    (g : Grammar) :
    Parser.KeepsStep budget (g.toParser rule)
      (g.instrumented (fun _ p => p.monitored alarm) rule') := by
  induction g with
  | satisfy test => exact (Parser.KeepsStep.satisfy test).monitored alarm
  | pure value => exact (Parser.KeepsStep.inPlace (fun _ => value) State.userData).monitored alarm
  | noting notes g ih => exact (ih.noting notes).monitored alarm
  | raise fault => exact (Parser.KeepsStep.raising fun _ => fault).monitored alarm
  | fail reason =>
      exact (Parser.KeepsStep.raising fun s => .parse reason (.int s.position)).monitored alarm
  | bind g f ihg ihf => exact (ihg.bind ihf).monitored alarm
  | andThen g h ihg ihh => exact (ihg.andThen ihh).monitored alarm
  | getUserData =>
      exact (Parser.KeepsStep.inPlace State.userData State.userData).monitored alarm
  | putUserData value =>
      exact (Parser.KeepsStep.inPlace (fun _ => value) fun _ => value).monitored alarm
  | popUserData => exact Parser.KeepsStep.popUserData.monitored alarm
  | lookahead g ih => exact ih.lookahead.monitored alarm
  | notFollowedBy g ih => exact ih.notFollowedBy.monitored alarm
  | either g h ihg ihh => exact (ihg.either ihh).monitored alarm
  | many g ih => exact ih.many.monitored alarm
  | many1 g ih => exact ih.many1.monitored alarm
  | skipMany g ih => exact ih.skipMany.monitored alarm
  | skipMany1 g ih => exact ih.skipMany1.monitored alarm
  | manyUntil g terminator ihg iht => exact (ihg.manyUntil iht).monitored alarm
  | sepBy1 g sep ihg ihs => exact (ihg.sepBy1 ihs).monitored alarm
  | count n g ih => exact (ih.count n).monitored alarm
  | traced id g ih => exact (ih.traced id).monitored alarm
  | activeSettings => exact Parser.KeepsStep.activeSettings.monitored alarm
  | changeSettings changes => exact (Parser.KeepsStep.changeSettings changes).monitored alarm
  | stateText =>
      exact (Parser.KeepsStep.inPlace (fun s => .str s.display) State.userData).monitored alarm
  | nested g producer options overrides ih =>
      exact (ih.nested producer options overrides).monitored alarm
  | call name args => exact (hrule name args).monitored alarm

/-- Rules keep step with themselves under monitors, however deep they are inside each other. -/
theorem Rules.keepsStep_monitored {budget : Nat} (alarm : Ending Context Outcome) (rules : Rules)
    (depth : Nat) (name : String) (args : List Value) :
    Parser.KeepsStep budget (rules.parser depth name args)
      (rules.instrumented (fun _ p => p.monitored alarm) depth name args) := by
  induction depth generalizing name args with
  | zero => exact fun _ _ _ _ => .self .unfinished
  | succ depth ih =>
      intro origin s ctx hs
      have hstep := Grammar.keepsStep_monitored alarm ih (rules name args) origin s ctx hs
      exact ⟨hstep.eq, hstep.grown⟩

/-- A grammar keeps to the track of its positions. -/
theorem Grammar.keepsStep {budget : Nat} {rule : String → List Value → Parser}
    (hrule : ∀ name args, Parser.KeepsStep budget (rule name args) (rule name args))
    (g : Grammar) : Parser.KeepsStep budget (g.toParser rule) (g.toParser rule) :=
  (keepsStep_monitored .unfinished hrule g).self

theorem Rules.keepsStep {budget : Nat} (rules : Rules) (depth : Nat) (name : String)
    (args : List Value) :
    Parser.KeepsStep budget (rules.parser depth name args) (rules.parser depth name args) :=
  (rules.keepsStep_monitored .unfinished depth name args).self

/-- **Positions stay in range and never go back.** From a state in range, with any grammar and any
producer, whether it raises or answers with what is no pair: no monitor of any part of the grammar
gives the alarm. The cache is only read, and the state stays in range, and no read at it is
refused, however the cache grows. A match is in range, not before the start, and behind cached
tokens only that are no end tokens, and stays so. The first state of a parse is in range. -/
theorem positions_in_range (rules : Rules) (g : Grammar) (alarm : Ending Context Outcome)
    (budget : Nat) (ctx : Context) (s : State) (hs : s.InRange ctx.cache) :
    (g.observed (fun _ p => p.monitored alarm) rules s).run budget ctx =
        (g.parser rules s).run budget ctx ∧
      (∀ c, ctx.cache.GrowsTo c → s.InRange c ∧ ¬c.Ahead s.position) ∧
      (∀ ctx', ((g.parser rules s).run budget ctx).final? = some ctx' →
        ctx.cache.GrowsTo ctx'.cache) ∧
      (∀ value s' ctx', (g.parser rules s).run budget ctx = .done (.matched value s') ctx' →
        ∀ c, ctx'.cache.GrowsTo c → s'.InRange c ∧ ¬c.Ahead s'.position ∧ c.Passes s s') ∧
      ∀ u s₀ ctx₀, (Parser.startState u).run budget ctx = .done s₀ ctx₀ →
        s₀.InRange ctx₀.cache := by
  have hrules : ∀ name args, Parser.KeepsStep budget (rules.parser budget name args)
      (rules.instrumented (fun _ p => p.monitored alarm) budget name args) :=
    rules.keepsStep_monitored alarm budget
  have hstep := Grammar.keepsStep_monitored alarm hrules g s s ctx hs.onTrack
  have hgrown : ((g.parser rules s).run budget ctx).Grown ctx.cache (Outcome.OnTrack s) :=
    hstep.grown
  refine ⟨hstep.eq, ?_, ?_, ?_, ?_⟩
  · intro c hc
    exact ⟨hs.grows hc, (hs.grows hc).not_ahead⟩
  · intro ctx' hfinal
    generalize (g.parser rules s).run budget ctx = e at hgrown hfinal
    cases hgrown with
    | done h _ =>
        cases hfinal
        exact h
    | raised h =>
        cases hfinal
        exact h
    | unfinished => cases hfinal
  · intro value s' ctx' hrun c hc
    rw [hrun] at hgrown
    cases hgrown with
    | done _ hgood =>
        have hlater := hgood.grows hc
        exact ⟨hlater.inRange, hlater.inRange.not_ahead, hlater.passes⟩
  · intro u s₀ ctx₀ hstart
    rw [Parser.startState_done hstart]
    exact State.inRange_start _ _

/-- A producer that raises when it is called for the third time. -/
def failingProducer : Producer :=
  .ofAnswers #[.ok (.pair (.str "a") (.int 1)), .ok (.pair (.str "a") (.int 2)),
    .error (.general [])]

/-- Under monitors that would end the run in silence, a repetition over the raising producer still
ends with its fault. -/
theorem positions_in_range_failing :
    State.InRange ⟨0, .null⟩ (Cache.fresh failingProducer) ∧
      (((Grammar.either (.count 2 (.is (.str "b"))) (.many .anyToken)).observed
        (fun _ p => p.monitored .unfinished) (fun _ _ => .eof) ⟨0, .null⟩).run 4
          (.opened failingProducer Session.fresh)).result? = some (.error (.general [])) := by
  have hs : State.InRange ⟨0, .null⟩ (Cache.fresh failingProducer) := State.inRange_start _ _
  refine ⟨hs, ?_⟩
  rw [(positions_in_range (fun _ _ => .eof) (.either (.count 2 (.is (.str "b")))
    (.many .anyToken)) .unfinished 4 (.opened failingProducer Session.fresh) ⟨0, .null⟩ hs).1]
  cbv

end PullParse
