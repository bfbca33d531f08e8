import PullParse.Proofs.Grammar.Instrumented
import PullParse.Proofs.Reading.Repetition
import PullParse.Proofs.Run.Endings

/-!
# Grammars are read as they run

Every node of a grammar is read as it runs, so a grammar is, and so are rules
that call each other. This holds with marks around the tests of tokens, too: they
change nothing but the journal, in which every look at a token then shows.
-/

namespace PullParse

open Run (Reads)

variable {marks : Marks} {src : Producer} {t : TokenStream} {settings : Settings} {budget : Nat}

/-! ## Marks in the journal -/

theorem Session.entered_event (session : Session) (id : Value) (outcome : Outcome) :
    (session.write (outcome.event id)).entered = session.entered := by
  rw [entered_write]
  cases outcome <;> simp [Outcome.event]

theorem Session.entered_raised (session : Session) (id : Value) (fault : Fault) :
    (session.write (.raised id fault)).entered = session.entered := by
  rw [entered_write]
  simp

namespace Parser.ReadsAs

/-- Marks are invisible to the outcome, which also passes when it is a fault. What they show is
what the mark of the entry adds to what the parser shows by itself. -/
theorem traced (id : Value) {marks' : Marks} {p : Parser} {r : Reader}
    (hmarks : ∀ (s : State) (before after : Session),
      marks'.Between (r s).examined (before.write (.enter id s.position)) after →
      marks.Between (r s).examined before after)
    (hp : ReadsAs marks' src t settings budget p r) :
    ReadsAs marks src t settings budget (p.traced id) r := by
  intro s ctx hctx hs
  have hmarked := hp s (ctx.mapSession fun session => session.write (.enter id s.position))
    ⟨hctx.holds, hctx.settings_eq⟩ hs
  unfold Reads at hmarked ⊢
  simp only [Parser.traced, Run.run_bind, Run.write, Run.modify, Run.attempt, Ending.andThen,
    if_true]
  generalize (p s).run budget _ = e, (r s).result = result at hmarked ⊢
  cases hmarked with
  | @done outcome _ ctx' hafter hsame =>
      obtain ⟨rfl, hout⟩ := hsame
      have hshown := (hmarks s _ _ hafter.marked).entered_eq
        (ctx'.session.entered_event id outcome)
      exact .done ⟨hafter.holds, hafter.length, hafter.settings_eq, hshown, hafter.nonneg⟩
        ⟨rfl, hout⟩
  | @raised fault ctx' hafter =>
      have hshown := (hmarks s _ _ hafter.marked).entered_eq
        (ctx'.session.entered_raised id fault)
      exact .raised ⟨hafter.holds, hafter.length, hafter.settings_eq, hshown, hafter.nonneg⟩
  | unfinished => exact .unfinished

theorem examined_satisfy (test : Value → Action Bool) (rule : String → List Value → Reader)
    (s : State) :
    ((Grammar.satisfy test).read t settings budget rule s).examined = [s.position] := by
  show (Reading.bind _ _).examined = _
  rw [Reading.bind, Reading.look]
  show [s.position] ++ (Reading.bind (Reading.ofExcept _) _).examined = _
  rw [Reading.bind, Reading.ofExcept]
  cases (test (t s.position.toNat).cls).result with
  | ok passed => cases passed <;> rfl
  | error fault => rfl

/-- A marked test of a token leaves a mark for the one look that it takes. -/
theorem traced_satisfy (id : Value) (hsrc : src.Delivers t) (test : Value → Action Bool)
    (rule : String → List Value → Reader) :
    ReadsAs .each src t settings budget ((Parser.satisfy test).traced id)
      ((Grammar.satisfy test).read t settings budget rule) := by
  refine traced id ?_ (satisfy (show Marks.none ≠ .each by decide) hsrc test rule)
  intro s before after hnone
  have hentered : after.entered = (before.write (.enter id s.position)).entered := hnone
  show after.entered = before.entered ++ _
  rw [hentered, Session.entered_write, examined_satisfy]
  rfl

end Parser.ReadsAs

/-! ## Grammars -/

/-- A grammar is read as it runs, if its rules and its tests of tokens are. -/
theorem Grammar.readsAs (hook : Parser → Parser)
    (hsatisfy : ∀ test reader, Parser.ReadsAs marks src t settings budget
      (hook (.satisfy test)) ((Grammar.satisfy test).read t settings budget reader))
    {rule : String → List Value → Parser} {reader : String → List Value → Reader}
    (hrule : ∀ name args,
      Parser.ReadsAs marks src t settings budget (rule name args) (reader name args))
    {g : Grammar} (hg : g.All (Admitted marks)) :
    Parser.ReadsAs marks src t settings budget (g.instrumented (.onTokens hook) rule)
      (g.read t settings budget reader) := by
  induction g with
  | satisfy test => exact hsatisfy test reader
  | pure value => exact .inPlace (fun _ => value) State.userData
  | noting notes g ih => exact .noting notes (ih hg.2)
  | raise fault => exact .raising fun _ => fault
  | fail reason => exact .raising fun s => .parse reason (.int s.position)
  | bind g f ihg ihf =>
      rw [instrumented, read]
      exact .bind (ihg hg.2.1) fun value => ihf value (hg.2.2 value)
  | andThen g h ihg ihh => exact .andThen (ihg hg.2.1) (ihh hg.2.2)
  | getUserData => exact .inPlace State.userData State.userData
  | putUserData value => exact .inPlace (fun _ => value) fun _ => value
  | popUserData => exact .popUserData reader
  | lookahead g ih => exact .lookahead (ih hg.2)
  | notFollowedBy g ih => exact .notFollowedBy (ih hg.2)
  | either g h ihg ihh => exact .either (ihg hg.2.1) (ihh hg.2.2)
  | many g ih => exact .many (ih hg.2)
  | many1 g ih => exact .many1 (ih hg.2)
  | skipMany g ih => exact .skipMany (ih hg.2)
  | skipMany1 g ih => exact .skipMany1 (ih hg.2)
  | manyUntil g terminator ihg iht => exact .manyUntil (ihg hg.2.1) (iht hg.2.2)
  | sepBy1 g sep ihg ihs => exact .sepBy1 (ihg hg.2.1) (ihs hg.2.2)
  | count n g ih => exact .count n (ih hg.2)
  | traced id g ih =>
      -- marks of the grammar itself are admitted only where nothing is said about marks
      obtain ⟨rfl, hg⟩ : marks = .any ∧ g.All (Admitted marks) := hg
      exact .traced id (fun _ _ _ _ => trivial) (ih hg)
  | activeSettings => exact .activeSettings
  | changeSettings changes => exact hg.elim
  | stateText => exact .inPlace (fun s => .str s.display) State.userData
  | nested g producer options overrides => exact hg.1.elim
  | call name args => exact hrule name args

/-- Rules are read as they run, however deep they are inside each other. -/
theorem Rules.readsAs (hook : Parser → Parser)
    (hsatisfy : ∀ test reader, Parser.ReadsAs marks src t settings budget
      (hook (.satisfy test)) ((Grammar.satisfy test).read t settings budget reader))
    {rules : Rules} (hrules : ∀ name args, (rules name args).All (Grammar.Admitted marks))
    (depth : Nat) (name : String) (args : List Value) :
    Parser.ReadsAs marks src t settings budget
      (rules.instrumented (.onTokens hook) depth name args)
      (rules.reader t settings budget depth name args) := by
  induction depth generalizing name args with
  | zero => exact fun _ _ _ _ => .unfinished
  | succ depth ih => exact Grammar.readsAs hook hsatisfy ih (hrules name args)

/-- A run with a hook around the tests of tokens proceeds in step with the reading. -/
theorem Grammar.observed_reads (hook : Parser → Parser) {ctx : Context}
    (hsatisfy : ∀ test reader, Parser.ReadsAs marks src t ctx.session.settings budget
      (hook (.satisfy test)) ((Grammar.satisfy test).read t ctx.session.settings budget reader))
    {rules : Rules} (hrules : ∀ name args, (rules name args).All (Admitted marks))
    {g : Grammar} (hg : g.All (Admitted marks)) (hctx : ctx.cache.Holds src t) {s : State}
    (hs : s.InRange ctx.cache) :
    Reads marks src t budget ctx Outcome.Same (g.observed (.onTokens hook) rules s)
      (g.reader rules t ctx.session.settings budget s) :=
  Grammar.readsAs hook hsatisfy (Rules.readsAs hook hsatisfy hrules budget) hg s ctx ⟨hctx, rfl⟩ hs

/-- A run over a cache that holds a prefix of the stream proceeds in step with the reading. -/
theorem Grammar.reads (hsrc : src.Delivers t) {rules : Rules}
    (hrules : ∀ name args, (rules name args).Plain) {g : Grammar} (hg : g.Plain)
    {ctx : Context} (hctx : ctx.cache.Holds src t) {s : State} (hs : s.InRange ctx.cache) :
    Reads .any src t budget ctx Outcome.Same (g.parser rules s)
      (g.reader rules t ctx.session.settings budget s) := by
  rw [← observed_idle]
  exact observed_reads id (fun test reader => .satisfy (by decide) hsrc test reader) hrules hg hctx
    hs

/-- What a run shows of itself, its cache apart, is what the reading gives. -/
theorem Run.Reads.result?_eq {ctx : Context} {x : Run Context Outcome} {y : Reading Outcome}
    (h : Reads marks src t budget ctx Outcome.Same x y) :
    (x.run budget ctx).result? = y.result := by
  unfold Reads at h
  generalize x.run budget ctx = e, y.result = result at h
  cases h with
  | done _ hsame => rw [hsame.1]; rfl
  | raised _ => rfl
  | unfinished => rfl

end PullParse
