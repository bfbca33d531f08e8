import PullParse.Proofs.Guard.Conservative
import PullParse.Proofs.Progress.Termination

/-!
# A syntactic criterion for progress

Where the bodies of all repetitions are consuming, every round moves on, and the
guard has nothing to do: no repetition stalls, and active or not the guard makes
no difference. The criterion looks at the grammar alone, not at the input, so it
holds over every producer; over one that comes to an end a tree of combinators
then ends under any guard.
-/

namespace PullParse

namespace Grammar

/-- The rounds of all repetitions in the grammar are consuming. -/
def Progressive (g : Grammar) : Prop := g.All RoundsConsume

/-- No repetition stalls in the run, and under every guard it is the same run. -/
def GuardIdle (rules : Rules) (g : Grammar) (budget : Nat) (ctx : Context) (s : State) : Prop :=
  ¬g.Stalls rules budget ctx s ∧ ∀ guard : Value,
    (g.parser rules s).run budget (ctx.withGuard guard) =
      ((g.parser rules s).run budget ctx).mapFinal (Context.withGuard guard)

/-- A progressive grammar leaves the guard idle, whether the budget may run out in the run of its
rules, or there are no rules and the budget is enough for the input. -/
theorem Progressive.guardIdle (unending : Prop) (last budget : Nat) (rules : Rules) {g : Grammar}
    (hbudget : unending ∨ last < budget)
    (hrules : unending → ∀ name args, (rules name args).Aloof ∧ (rules name args).Progressive)
    (hcalls : unending ∨ g.All NoCall) (haloof : g.Aloof) (hg : g.Progressive) {ctx : Context}
    (hends : unending ∨ ctx.cache.EndsBy last) {s : State} (hs : s.InRange ctx.cache) :
    g.GuardIdle rules budget ctx s ∧
      (¬unending → ∃ ctx', ((g.parser rules s).run budget ctx).final? = some ctx') := by
  -- no round may consume nothing, so nothing is asked of the guard
  let R (guard : Value) : Regime := ⟨ctx.session.settings, guard, False, False.elim, unending, last⟩
  have hsuits : ∀ guard, g.All (Suits (R guard)) := fun _ =>
    haloof.1.suits (.inr haloof.2) hcalls (.inr hg)
  have hrulesSuit : ∀ guard, unending →
      ∀ name args, (rules name args).All (Suits (R guard)) := by
    intro guard hunending name args
    obtain ⟨haloof', hg'⟩ := hrules hunending name args
    exact haloof'.1.suits (.inr haloof'.2) (.inl hunending) (.inr hg')
  have hcases := fun guard =>
    stalls_or_same budget hbudget (hrulesSuit guard) (hsuits guard) ⟨rfl, hends⟩ hs
  refine ⟨⟨?_, fun guard => ?_⟩, fun hnot => ?_⟩
  · rcases hcases .null with ⟨hstalls, -⟩ | ⟨hnone, -⟩
    · exact hstalls.elim
    · exact hnone
  · rcases hcases guard with ⟨hstalls, -⟩ | ⟨-, hsame⟩
    · exact hstalls.elim
    · exact hsame
  · have hlockstep := runs_lockstep (R := R .null) hbudget (hrulesSuit .null) (hsuits .null) s ctx
      ⟨rfl, hends⟩ hs
    obtain ⟨ctx', hfinal, -⟩ := hlockstep.exists_final hnot
    exact ⟨ctx', hfinal⟩

end Grammar

/-- **The progress criterion is sound.** A match of a consuming grammar, over any rules and any
producer, is strictly further on. If a grammar and its rules are aloof and progressive, then in no
run from a state in range a repetition stalls, and the guard makes no difference. If the grammar is
besides a tree, and the producer comes to an end, the run ends, too. -/
theorem progress_criterion (rules : Rules) (g : Grammar) :
    (g.Consuming → ∀ (budget : Nat) (ctx : Context) (s : State), s.InRange ctx.cache →
        ∀ value s' ctx', (g.parser rules s).run budget ctx = .done (.matched value s') ctx' →
          s.position < s'.position) ∧
      ((∀ name args, (rules name args).Aloof ∧ (rules name args).Progressive) → g.Aloof →
        g.Progressive → ∀ (budget : Nat) (ctx : Context) (s : State), s.InRange ctx.cache →
          g.GuardIdle rules budget ctx s) ∧
      (g.Tree → g.Aloof → g.Progressive → ∀ (src : Producer) (last : Nat), src.EndsAt last →
        ∀ budget > last, ∀ ctx : Context, ctx.cache.Reached src → ∀ s : State,
          s.InRange ctx.cache → g.GuardIdle rules budget ctx s ∧
            ∃ ctx', ((g.parser rules s).run budget ctx).final? = some ctx') := by
  refine ⟨?_, ?_, ?_⟩
  · intro hg budget ctx s hs value s' ctx' hrun
    exact hg.advances (rules.keepsStep budget) s ctx value s' ctx' hs hrun
  · intro hrules haloof hg budget ctx s hs
    obtain ⟨hidle, -⟩ := Grammar.Progressive.guardIdle True 0 budget rules (.inl trivial)
      (fun _ => hrules) (.inl trivial) haloof hg (.inl trivial) hs
    exact hidle
  · intro htree haloof hg src last hend budget hbudget ctx hctx s hs
    obtain ⟨hidle, hfinal⟩ := Grammar.Progressive.guardIdle False last budget rules (.inr hbudget)
      False.elim (.inr htree.2) haloof hg (.inr (hctx.endsBy hend)) hs
    exact ⟨hidle, hfinal id⟩

/-- A bracketed list, whose items may be missing but whose brackets may not. -/
def bracketed : Grammar :=
  .between (.is (.str "(")) (.is (.str ")")) (.sepBy (.is (.str "a")) (.is (.str ",")))

/-- Any token, with a sign or without, and its value doubled in a list. -/
def signed : Grammar :=
  .fmap (fun value => return .list [value, value])
    (.sequence (.maybe (.is (.str "-"))) .anyToken [])

/-- Bracketed lists and signed tokens, up to the end. -/
def phrases : Grammar := .sequence (.many1 (.either (.ignore bracketed) signed)) .eof []

/-- The tokens of a bracketed list of two items, and of a token with a sign. -/
def phraseTokens : List Token :=
  ["(", "a", ",", "a", ")", "-", "a"].map fun cls => ⟨.str cls, .null⟩

/-- Brackets and signed tokens move on, so the phrases do, and so do all rounds in them. -/
theorem phrases_progressive : phrases.Consuming ∧ phrases.Progressive := by
  have hopening : (Grammar.is (.str "(")).Consuming := Grammar.consuming_is nofun
  have hcomma : (Grammar.is (.str ",")).Consuming := Grammar.consuming_is nofun
  have hbracketed : bracketed.Consuming := Grammar.consuming_between (.inl hopening)
  have hsigned : signed.Consuming :=
    (Grammar.consuming_sequence (.tail _ (.head _)) Grammar.consuming_anyToken).fmap _
  have hbody : (Grammar.either (.ignore bracketed) signed).Consuming := ⟨hbracketed.ignore, hsigned⟩
  have hlist : (Grammar.sepBy (.is (.str "a")) (.is (.str ","))).Progressive :=
    ⟨trivial, ⟨.inl hcomma, trivial, trivial⟩, trivial⟩
  have hprogressive : bracketed.Progressive :=
    ⟨trivial, trivial, fun _ => ⟨trivial, hlist, fun _ => ⟨trivial, trivial, trivial⟩⟩⟩
  refine ⟨Grammar.consuming_sequence (.head _) hbody, trivial, ⟨hbody, trivial, ?_, ?_⟩, trivial⟩
  · exact ⟨trivial, hprogressive, trivial⟩
  · exact ⟨trivial, ⟨trivial, ⟨trivial, ⟨trivial, trivial, trivial⟩, trivial⟩, trivial⟩,
      fun _ => ⟨trivial, trivial⟩⟩

/-- The phrases are a tree of combinators and do not look at the settings. -/
theorem phrases_tree_aloof : phrases.Tree ∧ phrases.Aloof := by
  have hparts : phrases.All fun part =>
      part.Admitted .each ∧ part.NoCall ∧ part ≠ .activeSettings := by
    have hdoubled : ∀ value : Value,
        (Grammar.ofAction (do return .pure (← (return .list [value, value] : Action Value)))).All
          fun part => part.Admitted .each ∧ part.NoCall ∧ part ≠ .activeSettings := fun _ =>
      ⟨⟨trivial, nofun, nofun⟩, trivial, nofun, nofun⟩
    simpa [phrases, bracketed, signed, Grammar.sequence, Grammar.ignore, Grammar.between,
      Grammar.sepBy, Grammar.maybe, Grammar.opt, Grammar.fmap, Grammar.is, Grammar.isWith,
      Grammar.anyToken, Grammar.eof, Grammar.All, Grammar.Admitted, Grammar.NoCall] using hdoubled
  have hunmarked : phrases.Unmarked := hparts.mono fun _ hpart => hpart.1
  exact ⟨⟨hunmarked, hparts.mono fun _ hpart => hpart.2.1⟩,
    hunmarked, hparts.mono fun _ hpart => hpart.2.2⟩

/-- The phrases match to the end and are further on, and they do so without a guard, too. -/
theorem progress_criterion_phrases :
    phrases.Consuming ∧ phrases.Tree ∧ phrases.Aloof ∧ phrases.Progressive ∧
      (Producer.ofTokens phraseTokens).EndsAt 7 ∧
      State.InRange ⟨0, .null⟩ (Cache.fresh (.ofTokens phraseTokens)) ∧
      (∃ value s' ctx', (phrases.parser (fun _ _ => .eof) ⟨0, .null⟩).run 8
          (.opened (.ofTokens phraseTokens) .fresh) = .done (.matched value s') ctx' ∧
        0 < s'.position) ∧
      ((phrases.parser (fun _ _ => .eof) ⟨0, .null⟩).run 8
        ((Context.opened (.ofTokens phraseTokens) .fresh).withGuard (.bool false))).result? =
          some (.ok (.matched .null ⟨7, .null⟩)) := by
  obtain ⟨hconsuming, hprogressive⟩ := phrases_progressive
  obtain ⟨htree, haloof⟩ := phrases_tree_aloof
  have hopen : (TokenStream.ofList phraseTokens).Open 7 := by
    unfold TokenStream.Open
    decide
  have hend : (Producer.ofTokens phraseTokens).EndsAt 7 :=
    (Producer.delivers_ofTokens phraseTokens).endsAt hopen rfl
  have hs : State.InRange ⟨0, .null⟩ (Cache.fresh (.ofTokens phraseTokens)) :=
    State.inRange_start _ _
  obtain ⟨hfurther, -, hends⟩ := progress_criterion (fun _ _ => .eof) phrases
  obtain ⟨⟨-, hsame⟩, -⟩ := hends htree haloof hprogressive (.ofTokens phraseTokens) 7 hend 8
    (by omega) (.opened (.ofTokens phraseTokens) .fresh) ⟨[], rfl⟩ ⟨0, .null⟩ hs
  have hresult : ((phrases.parser (fun _ _ => .eof) ⟨0, .null⟩).run 8
      (.opened (.ofTokens phraseTokens) .fresh)).result? =
        some (.ok (.matched .null ⟨7, .null⟩)) := by cbv
  refine ⟨hconsuming, htree, haloof, hprogressive, hend, hs, ?_, ?_⟩
  · obtain ⟨ctx', hrun⟩ := Ending.exists_done_of_result? hresult
    exact ⟨_, _, ctx', hrun, hfurther hconsuming 8 _ _ hs _ _ _ hrun⟩
  · rw [hsame]
    cbv

end PullParse
