import PullParse.Proofs.Guard.Grammar
import PullParse.Proofs.Progress.Rounds

/-!
# Guarded grammars terminate

Under an active guard, on an input that comes to an end, a grammar that calls no
rules ends: there are only so many positions, and every round but the last one of
a repetition uses one up. So the budget that is enough is the number of positions,
and a repetition runs its body once for each of those that are left, once more at
the end of the input, and once for a first match that is made whatever it consumes.
-/

namespace PullParse

/-! ## Whole repetitions -/

/-- How many rounds that move on lead from the state beyond the end of the input. -/
def Regime.roundsLeft (R : Regime) (s : State) : Nat := (R.last + 1 - s.position).toNat

namespace Regime

variable {R : Regime} {s s' : State}

theorem last_lt_roundsLeft : (R.last : Int) < s.position + R.roundsLeft s := by
  unfold roundsLeft
  omega

theorem roundsLeft_le {budget : Nat} (hbudget : R.last < budget) {c : Cache} (hs : s.InRange c) :
    R.roundsLeft s ≤ budget := by
  have h0 := hs.1
  unfold roundsLeft
  omega

theorem roundsLeft_anti (h : s.position ≤ s'.position) : R.roundsLeft s' ≤ R.roundsLeft s := by
  unfold roundsLeft
  omega

end Regime

/-- The guard is active, and the input ends within the budget. -/
structure Regime.Confines (R : Regime) (budget : Nat) : Prop where
  active : R.settings.guard.truth = true
  ends : ¬R.unending
  enough : R.last < budget

theorem Regime.Confines.guard_active {R : Regime} {budget : Nat} (hR : R.Confines budget)
    {ctx : Context} (hctx : ctx.Under R) : ctx.session.settings.guard.truth = true := by
  rw [hctx.settings_eq]
  exact hR.active

/-- From a state in range the repetition ends, and enters marked parsers at most once for each round
that is left and once more. -/
def Parser.Bounded (R : Regime) (budget : Nat) (p : Parser) : Prop :=
  ∀ (s : State) (ctx : Context), ctx.Under R → s.InRange ctx.cache →
    Run.Tallies budget ctx (R.roundsLeft s + 1) (p s)

namespace Parser.Bounded

variable {R : Regime} {budget : Nat} {p q : Parser} {s : State} {ctx : Context}

theorem repeating (hR : R.Confines budget) (name : String) (f : List Value → Value)
    (hstep : KeepsStep budget p p) (hp : p.Tallies R budget 1) (hctx : ctx.Under R)
    (hs : s.InRange ctx.cache) :
    Run.Tallies budget ctx (R.roundsLeft s) (do
      let (values, s') ← Parser.repeated name p s
      return Outcome.matched (f values) s') := by
  have hrounds : Run.Tallies budget ctx (R.roundsLeft s) (Parser.repeated name p s) :=
    .guarded (hR.guard_active hctx) (Tallies.rounds name hR.ends hstep hp (R.roundsLeft s) budget s
      [] ctx hctx hs (Regime.roundsLeft_le hR.enough hs) Regime.last_lt_roundsLeft)
  exact hrounds.bind (k := 0) fun _ _ _ _ => .pure _

/-- A first match that has to be made, and what follows it: the rounds are counted from where the
match has led. -/
theorem mandatory {f : Value → Parser} (hstep : KeepsStep budget p p) (hp : p.Tallies R budget 1)
    (hf : ∀ (value : Value) (s : State) (ctx : Context), ctx.Under R → s.InRange ctx.cache →
      Run.Tallies budget ctx (R.roundsLeft s) (f value s)) :
    Bounded R budget
      (fun s => do
        match ← p s with
        | .noMatch => return .noMatch
        | .matched value s' => f value s') := by
  intro s ctx hctx hs
  rw [Nat.add_comm]
  refine (hp s ctx hctx hs).bind ?_
  intro outcome ctx' hrun hsettings
  obtain ⟨hgrows, hout⟩ := hstep.done hs hrun
  cases outcome with
  | noMatch => exact .pure _
  | matched value s' =>
      have hrest := hf value s' ctx' (hctx.grows hsettings hgrows) hout.inRange
      exact hrest.mono (Regime.roundsLeft_anti hout.passes.1)

theorem many (hR : R.Confines budget) (hstep : KeepsStep budget p p)
    (hp : p.Tallies R budget 1) : Bounded R budget p.many := by
  intro s ctx hctx hs
  exact (repeating hR "many" .list hstep hp hctx hs).mono (Nat.le_succ _)

theorem skipMany (hR : R.Confines budget) (hstep : KeepsStep budget p p)
    (hp : p.Tallies R budget 1) : Bounded R budget p.skipMany := by
  intro s ctx hctx hs
  exact (repeating hR "skip_many" (fun _ => .null) hstep hp hctx hs).mono (Nat.le_succ _)

theorem many1 (hR : R.Confines budget) (hstep : KeepsStep budget p p)
    (hp : p.Tallies R budget 1) : Bounded R budget p.many1 := by
  refine mandatory hstep hp ?_
  intro value s ctx hctx hs
  exact repeating hR "many1" (fun values => .list (value :: values)) hstep hp hctx hs

theorem skipMany1 (hR : R.Confines budget) (hstep : KeepsStep budget p p)
    (hp : p.Tallies R budget 1) : Bounded R budget p.skipMany1 := by
  refine mandatory hstep hp ?_
  intro value s ctx hctx hs
  exact repeating hR "skip_many1" (fun _ => .null) hstep hp hctx hs

theorem manyUntil (hR : R.Confines budget) (hstep : KeepsStep budget p p)
    (hp : p.Tallies R budget 1) (hstep' : KeepsStep budget q q) (hq : q.Tallies R budget 0) :
    Bounded R budget (p.manyUntil q) := by
  intro s ctx hctx hs
  have hrounds : Run.Tallies budget ctx (R.roundsLeft s) (Parser.manyUntil p q s) :=
    .guarded (hR.guard_active hctx) (Tallies.roundsUntil hR.ends hstep hp hstep' hq (R.roundsLeft s)
      budget s [] ctx hctx hs (Regime.roundsLeft_le hR.enough hs) Regime.last_lt_roundsLeft)
  exact hrounds.mono (Nat.le_succ _)

theorem sepBy1 (hR : R.Confines budget) (hstep : KeepsStep budget p p)
    (hp : p.Tallies R budget 1) (hstep' : KeepsStep budget q q) (hq : q.Tallies R budget 0) :
    Bounded R budget (p.sepBy1 q) := by
  refine mandatory hstep hp ?_
  intro value s ctx hctx hs
  exact .guarded (hR.guard_active hctx) (Tallies.roundsSeparated hR.ends hstep hp hstep' hq
    (R.roundsLeft s) budget s [value] ctx hctx hs (Regime.roundsLeft_le hR.enough hs)
    Regime.last_lt_roundsLeft)

end Parser.Bounded

/-! ## Grammars without rules -/

namespace Grammar

/-- The grammar is nothing but a tree of combinators: it calls no rules, leaves the settings as they
are, parses no other input and does not mark. -/
def Tree (g : Grammar) : Prop := g.Unmarked ∧ g.All NoCall

/-- The repetitions of a body, some of them with a second grammar as terminator or separator. -/
def repetitions (g h : Grammar) : List Grammar :=
  [.many g, .many1 g, .skipMany g, .skipMany1 g, .manyUntil g h, .sepBy1 g h]

variable {R : Regime} {budget : Nat} {rule : String → List Value → Parser} {g h r : Grammar}

/-- Where the budget may not run out, a tree that suits the regime marks nothing and ends. -/
theorem Tree.tallies (hR : R.Confines budget)
    (hstep : ∀ name args, Parser.KeepsStep budget (rule name args) (rule name args))
    (hg : g.All (Suits R)) : (g.toParser rule).Tallies R budget 0 := by
  have hlockstep : Parser.Lockstep R budget (g.instrumented (.onLeaves Parser.masked) rule)
      (g.toParser rule) :=
    Grammar.lockstep (.inr hR.enough) hstep (fun hunending => absurd hunending hR.ends) hg
  exact hlockstep.tallies hR.ends

/-- With marks around its body, a repetition of a tree shows how often the body is run. -/
theorem bounded_of_mem_repetitions (hR : R.Confines budget)
    (hstep : ∀ name args, Parser.KeepsStep budget (rule name args) (rule name args))
    (hg : g.All (Suits R)) (hh : h.All (Suits R)) {mark : Value}
    (hr : r ∈ repetitions (.traced mark g) h) : Parser.Bounded R budget (r.toParser rule) := by
  have hbody := Grammar.keepsStep hstep (.traced mark g)
  have hmarked := (Tree.tallies hR hstep hg).traced mark
  have hother := Grammar.keepsStep hstep h
  have hunmarked := Tree.tallies hR hstep hh
  simp only [repetitions, List.mem_cons, List.not_mem_nil, or_false] at hr
  rcases hr with rfl | rfl | rfl | rfl | rfl | rfl
  · exact .many hR hbody hmarked
  · exact .many1 hR hbody hmarked
  · exact .skipMany hR hbody hmarked
  · exact .skipMany1 hR hbody hmarked
  · exact .manyUntil hR hbody hmarked hother hunmarked
  · exact .sepBy1 hR hbody hmarked hother hunmarked

end Grammar

/-- **Guarded grammars terminate.** Let the producer deliver an end token behind `last` other
tokens; calls before it may fail. Under an active guard, from every state in range over it, a tree
of combinators ends within every budget above `last`. So does each repetition of such a tree,
wherever in a run it starts, and it runs its body at most `last - position + 2` times, as the marks
around the body tell. -/
theorem guarded_terminates (rules : Rules) (g h : Grammar) (hg : g.Tree) (hh : h.Tree)
    (src : Producer) (last : Nat) (hend : src.EndsAt last) (budget : Nat) (hbudget : last < budget)
    (ctx : Context) (hctx : ctx.cache.Reached src)
    (hguard : ctx.session.settings.guard.truth = true) (s : State) (hs : s.InRange ctx.cache)
    (mark : Value) :
    (∃ ctx', ((g.parser rules s).run budget ctx).final? = some ctx') ∧
      ∀ r ∈ Grammar.repetitions (.traced mark g) h,
        ∃ ctx', ((r.parser rules s).run budget ctx).final? = some ctx' ∧
          (ctx'.session.entered.length : Int) ≤
            ctx.session.entered.length + (last - s.position + 2) := by
  -- rounds may stall, which ends the run, but the budget may not run out
  let R : Regime :=
    ⟨ctx.session.settings, ctx.session.settings.guard, True, fun _ => hguard, False, last⟩
  have hR : R.Confines budget := ⟨hguard, id, hbudget⟩
  have hunder : ctx.Under R := ⟨rfl, .inr (hctx.endsBy hend)⟩
  have hstep : ∀ name args, Parser.KeepsStep budget (rules.parser budget name args)
      (rules.parser budget name args) := rules.keepsStep budget
  have suits : ∀ {k : Grammar}, k.Tree → k.All (Grammar.Suits R) := fun hk =>
    hk.1.suits (.inl rfl) (.inr hk.2) (.inl trivial)
  constructor
  · obtain ⟨ctx', hfinal, -⟩ := Grammar.Tree.tallies hR hstep (suits hg) s ctx hunder hs
    exact ⟨ctx', hfinal⟩
  · intro r hr
    obtain ⟨ctx', hfinal, -, hlength⟩ :=
      Grammar.bounded_of_mem_repetitions hR hstep (suits hg) (suits hh) hr s ctx hunder hs
    refine ⟨ctx', hfinal, ?_⟩
    have hle := (hctx.endsBy hend).position_le hs
    have hleft : R.roundsLeft s = (last + 1 - s.position).toNat := rfl
    omega

/-- Matches in place at first, and notes that in the user data; then takes at most one token. -/
def hesitant : Grammar :=
  .bind .getUserData fun data =>
    if data.equal .null then .putUserData (.int 1) else .maybe (.is (.str "a"))

/-- A producer that fails before it delivers two tokens of one class and the end. -/
def stumblingProducer : Producer :=
  .ofAnswers #[.error (.general []), .ok (.pair (.str "a") (.int 1)),
    .ok (.pair (.str "a") (.int 2))]

theorem hesitant_tree : hesitant.Tree := by
  constructor
  · refine ⟨trivial, trivial, fun value => ?_⟩
    show Grammar.Unmarked (if value.equal .null then _ else _)
    split
    · exact trivial
    · exact ⟨trivial, ⟨trivial, trivial, trivial⟩, trivial⟩
  · refine ⟨nofun, nofun, fun value => ?_⟩
    show Grammar.All _ (if value.equal .null then _ else _)
    split
    · exact nofun
    · exact ⟨nofun, ⟨nofun, nofun, nofun⟩, nofun⟩

/-- The bound is attained: the first match is made in place and not guarded, two rounds move on, and
the round at the end of the input stalls. The producer has failed in an earlier run. -/
theorem guarded_terminates_hesitant :
    hesitant.Tree ∧ Grammar.eof.Tree ∧ stumblingProducer.EndsAt 2 ∧
      ((Cache.fresh stumblingProducer).reads [0]).Reached stumblingProducer ∧
      Session.fresh.settings.guard.truth = true ∧
      State.InRange ⟨0, .null⟩ ((Cache.fresh stumblingProducer).reads [0]) ∧
      ∃ ctx', (((Grammar.many1 (.traced .null hesitant)).parser (fun _ _ => .eof) ⟨0, .null⟩).run 3
          ⟨(Cache.fresh stumblingProducer).reads [0], .fresh⟩).final? = some ctx' ∧
        ctx'.session.entered.length = 4 ∧
        (ctx'.session.entered.length : Int) ≤ (0 : Nat) + ((2 : Nat) - 0 + 2) := by
  have heof : Grammar.eof.Tree := ⟨trivial, nofun⟩
  have hend : stumblingProducer.EndsAt 2 := ⟨3, .eof, rfl, rfl, rfl⟩
  have hreached : ((Cache.fresh stumblingProducer).reads [0]).Reached stumblingProducer := ⟨_, rfl⟩
  have hs : State.InRange ⟨0, .null⟩ ((Cache.fresh stumblingProducer).reads [0]) :=
    State.inRange_start _ _
  obtain ⟨-, hrepetitions⟩ := guarded_terminates (fun _ _ => .eof) hesitant .eof hesitant_tree heof
    stumblingProducer 2 hend 3 (by omega) ⟨(Cache.fresh stumblingProducer).reads [0], .fresh⟩
    hreached rfl ⟨0, .null⟩ hs .null
  obtain ⟨ctx', hfinal, hlength⟩ :=
    hrepetitions (.many1 (.traced .null hesitant)) (.tail _ (.head _))
  have hcount : ((((Grammar.many1 (.traced .null hesitant)).parser (fun _ _ => .eof)
      ⟨0, .null⟩).run 3 ⟨(Cache.fresh stumblingProducer).reads [0], .fresh⟩).final?).map
        (fun ctx => ctx.session.entered.length) = some 4 := by cbv
  rw [hfinal] at hcount
  have hattained : ctx'.session.entered.length = 4 := Option.some.inj hcount
  exact ⟨hesitant_tree, heof, hend, hreached, rfl, hs, ctx', hfinal, hattained, hlength⟩

end PullParse
