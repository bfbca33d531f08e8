import PullParse.Proofs.Guard.Repetition

/-!
# Grammars run in lockstep

The combinators put together: a grammar that leaves the settings alone runs in
lockstep under two guards, and so do its rules, however deep they are inside each
other. What else is asked of the grammar depends on the regime: without rules the
budget does not run out, and with bodies that consume no repetition stalls.
-/

namespace PullParse

namespace Grammar

/-- Every round of a repetition consumes a token. Parts that are no repetitions are not asked. -/
def RoundsConsume : Grammar → Prop
  | .many g | .many1 g | .skipMany g | .skipMany1 g | .manyUntil g _ => g.Consuming
  | .sepBy1 g sep => (sep.andThen g).Consuming
  | _ => True

/-- The part is no call of a rule. -/
def NoCall (g : Grammar) : Prop := ∀ name args, g ≠ .call name args

/-- A part that a regime is about. -/
structure Suits (R : Regime) (g : Grammar) : Prop where
  admitted : g.Admitted .each
  settings : R.guard = R.settings.guard ∨ g ≠ .activeSettings
  unending : R.unending ∨ g.NoCall
  stalls : R.stalls ∨ g.RoundsConsume

/-- A grammar suits a regime if it has what the regime does not grant. -/
theorem Unmarked.suits {R : Regime} {g : Grammar} (hg : g.Unmarked)
    (hsettings : R.guard = R.settings.guard ∨ g.All (· ≠ .activeSettings))
    (hcalls : R.unending ∨ g.All NoCall) (hrounds : R.stalls ∨ g.All RoundsConsume) :
    g.All (Suits R) := by
  have hall := ((hg.and (All.or_left hg hsettings)).and (All.or_left hg hcalls)).and
    (All.or_left hg hrounds)
  refine hall.mono ?_
  rintro part ⟨⟨⟨hadmitted, hsettings⟩, hcalls⟩, hrounds⟩
  exact ⟨hadmitted, hsettings, hcalls, hrounds⟩

/-- A repetition breaks the run off in a round that consumes nothing: with the faults of all leaves
masked, the run still ends with a stalled repetition. -/
def Stalls (rules : Rules) (g : Grammar) (budget : Nat) (ctx : Context) (s : State) : Prop :=
  ∃ combinator position ctx',
    (g.observed (.onLeaves Parser.masked) rules s).run budget ctx =
      .raised (.stalled combinator position) ctx'

end Grammar

open PullParse.Parser (KeepsStep Lockstep)

variable {R : Regime} {budget : Nat}

/-- A grammar runs in lockstep, if its rules do. -/
theorem Grammar.lockstep (hbudget : R.unending ∨ R.last < budget)
    {rule masked : String → List Value → Parser}
    (hstep : ∀ name args, KeepsStep budget (rule name args) (rule name args))
    (hrule : R.unending → ∀ name args, Lockstep R budget (masked name args) (rule name args))
    {g : Grammar} (hg : g.All (Suits R)) :
    Lockstep R budget (g.instrumented (.onLeaves Parser.masked) masked) (g.toParser rule) := by
  have keeps := Grammar.keepsStep hstep
  have advances : ∀ {h : Grammar}, R.stalls ∨ h.Consuming →
      R.stalls ∨ (h.toParser rule).Advances budget :=
    fun h => h.imp_right fun hconsuming => hconsuming.advances hstep
  induction g with
  | satisfy test => exact .satisfy test
  | pure value => exact .inPlace fun s => .matched value s
  | noting notes g ih => exact .noting notes (ih hg.2)
  | raise fault => exact .raising fun _ => fault
  | fail reason => exact .raising fun s => .parse reason (.int s.position)
  | bind g f ihg ihf => exact .bind (keeps g) (ihg hg.2.1) fun value => ihf value (hg.2.2 value)
  | andThen g h ihg ihh => exact .andThen (keeps g) (ihg hg.2.1) (ihh hg.2.2)
  | getUserData => exact .inPlace fun s => .matched s.userData s
  | putUserData value => exact .inPlace fun s => .matched value { s with userData := value }
  | popUserData => exact .popUserData
  | lookahead g ih => exact .lookahead (ih hg.2)
  | notFollowedBy g ih => exact .notFollowedBy (ih hg.2)
  | either g h ihg ihh => exact .either (keeps g) (ihg hg.2.1) (ihh hg.2.2)
  | many g ih => exact .many hbudget (keeps g) (ih hg.2) (advances hg.1.stalls)
  | many1 g ih => exact .many1 hbudget (keeps g) (ih hg.2) (advances hg.1.stalls)
  | skipMany g ih => exact .skipMany hbudget (keeps g) (ih hg.2) (advances hg.1.stalls)
  | skipMany1 g ih => exact .skipMany1 hbudget (keeps g) (ih hg.2) (advances hg.1.stalls)
  | manyUntil g terminator ihg iht =>
      exact .manyUntil hbudget (keeps g) (ihg hg.2.1) (keeps terminator) (iht hg.2.2)
        (advances hg.1.stalls)
  | sepBy1 g sep ihg ihs =>
      exact .sepBy1 hbudget (keeps g) (ihg hg.2.1) (keeps sep) (ihs hg.2.2)
        (advances (h := sep.andThen g) hg.1.stalls)
  | count n g ih => exact .count n (keeps g) (ih hg.2)
  | traced id g _ =>
      have hmarks : Marks.each = .any := hg.1.admitted
      cases hmarks
  | activeSettings => exact .activeSettings (hg.settings.resolve_right fun hne => hne rfl)
  | changeSettings changes => exact hg.admitted.elim
  | stateText => exact .inPlace fun s => .matched (.str s.display) s
  | nested g producer options overrides => exact hg.1.admitted.elim
  | call name args =>
      exact hrule (hg.unending.resolve_right fun hnone => hnone name args rfl) name args

/-- Rules run in lockstep, however deep they are inside each other. -/
theorem Rules.lockstep (hunending : R.unending) {rules : Rules}
    (hrules : ∀ name args, (rules name args).All (Grammar.Suits R)) (depth : Nat) (name : String)
    (args : List Value) :
    Lockstep R budget (rules.instrumented (.onLeaves Parser.masked) depth name args)
      (rules.parser depth name args) := by
  induction depth generalizing name args with
  | zero => exact fun _ _ _ _ => .unfinished hunending
  | succ depth ih =>
      exact Grammar.lockstep (.inl hunending) (rules.keepsStep depth) (fun _ => ih)
        (hrules name args)

/-- The runs of a grammar over its rules are in lockstep. -/
theorem Grammar.runs_lockstep (hbudget : R.unending ∨ R.last < budget) {rules : Rules}
    (hrules : R.unending → ∀ name args, (rules name args).All (Suits R)) {g : Grammar}
    (hg : g.All (Suits R)) :
    Lockstep R budget (g.observed (.onLeaves Parser.masked) rules) (g.parser rules) := by
  intro s ctx hctx hs
  exact Grammar.lockstep hbudget (rules.keepsStep budget)
    (fun hunending => Rules.lockstep hunending (hrules hunending) budget) hg s ctx hctx hs

/-- Either a repetition stalls, where it may, or the other guard makes no difference. -/
theorem Grammar.stalls_or_same (budget : Nat) (hbudget : R.unending ∨ R.last < budget)
    {rules : Rules}
    (hrules : R.unending → ∀ name args, (rules name args).All (Suits R)) {g : Grammar}
    (hg : g.All (Suits R)) {ctx : Context} (hctx : ctx.Under R) {s : State}
    (hs : s.InRange ctx.cache) :
    (R.stalls ∧ g.Stalls rules budget ctx s ∧ ∃ name s' ctx',
        (g.parser rules s).run budget ctx = .raised (Parser.stall name s') ctx') ∨
      (¬g.Stalls rules budget ctx s ∧
        (g.parser rules s).run budget (ctx.withGuard R.guard) =
          ((g.parser rules s).run budget ctx).mapFinal (Context.withGuard R.guard)) := by
  have hlockstep := Grammar.runs_lockstep hbudget hrules hg s ctx hctx hs
  rcases hlockstep.cases_stalled with ⟨hstalls, name, s', ctx', hmasked, hrun⟩ | ⟨hnone, hother⟩
  · exact .inl ⟨hstalls, ⟨_, _, ctx', hmasked⟩, name, s', ctx', hrun⟩
  · refine .inr ⟨?_, hother⟩
    rintro ⟨combinator, position, ctx', hmasked⟩
    exact hnone combinator position ctx' hmasked

end PullParse
