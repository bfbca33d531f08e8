import PullParse.Proofs.Guard.Grammar

/-!
# The guard is conservative

An active guard does one thing: it breaks off a run that has stalled. A run that
ends in any other way, by a match, a mismatch, or a fault of a callback or of the
producer, even if that fault is itself a stalled repetition, does the same things
under every other guard, down to the calls of the producer and of the callbacks.
-/

namespace PullParse

/-- Nothing in the grammar looks at the settings, changes them, parses another input or marks. -/
def Grammar.Aloof (g : Grammar) : Prop := g.Unmarked ∧ g.All (· ≠ .activeSettings)

/-- **The guard is conservative.** Let an aloof grammar run under an active guard, from a state in
range over any producer. If a repetition stalls, the run ends with that fault. If none does, then
under any other guard, an inactive one for instance, the run ends at the same budget and in the same
way: with the same value, position and user data or the same fault, the same calls of the producer
and the same events in the journal. All that differs in its context is the guard. -/
theorem guard_conservative (rules : Rules) (hrules : ∀ name args, (rules name args).Aloof)
    (g : Grammar) (hg : g.Aloof) (budget : Nat) (ctx : Context)
    (hguard : ctx.session.settings.guard.truth = true) (s : State) (hs : s.InRange ctx.cache) :
    (g.Stalls rules budget ctx s → ∃ name s' ctx',
        (g.parser rules s).run budget ctx = .raised (Parser.stall name s') ctx') ∧
      (¬g.Stalls rules budget ctx s → ∀ guard : Value,
        (g.parser rules s).run budget (ctx.withGuard guard) =
          ((g.parser rules s).run budget ctx).mapFinal (Context.withGuard guard)) := by
  have hcases := fun guard : Value =>
    Grammar.stalls_or_same (R := ⟨ctx.session.settings, guard, True, fun _ => hguard, True, 0⟩)
      budget (.inl trivial)
      (fun _ name args => (hrules name args).1.suits (.inr (hrules name args).2) (.inl trivial)
        (.inl trivial))
      (hg.1.suits (.inr hg.2) (.inl trivial) (.inl trivial)) ⟨rfl, .inl trivial⟩ hs
  constructor
  · intro hstalls
    rcases hcases .null with ⟨-, -, hrun⟩ | ⟨hnone, -⟩
    · exact hrun
    · exact absurd hstalls hnone
  · intro hnone guard
    rcases hcases guard with ⟨-, hstalls, -⟩ | ⟨-, hother⟩
    · exact absurd hstalls hnone
    · exact hother

/-- Two tokens of one class, numbered. -/
def numberedTokens : List Token := [⟨.str "a", .int 1⟩, ⟨.str "a", .int 2⟩]

/-- Refuses the value two with the fault that a stalled repetition has. -/
def refusing (v : Value) : Grammar :=
  if v.equal (.int 2) then .raise (.stalled (.str "many") (.int 1)) else .pure v

/-- A run that a callback ends with the fault of a stalled repetition has not stalled, and ends so
without a guard, too. -/
theorem guard_conservative_callback :
    (∀ (name : String) (args : List Value), ((fun _ _ => .eof : Rules) name args).Aloof) ∧
      (Grammar.many (.bind (.is (.str "a")) refusing)).Aloof ∧
      Session.fresh.settings.guard.truth = true ∧
      State.InRange ⟨0, .null⟩ (Cache.fresh (.ofTokens numberedTokens)) ∧
      ¬(Grammar.many (.bind (.is (.str "a")) refusing)).Stalls (fun _ _ => .eof) 4
        (.opened (.ofTokens numberedTokens) .fresh) ⟨0, .null⟩ ∧
      (((Grammar.many (.bind (.is (.str "a")) refusing)).parser (fun _ _ => .eof) ⟨0, .null⟩).run 4
        ((Context.opened (.ofTokens numberedTokens) .fresh).withGuard (.bool false))).result? =
          some (.error (.stalled (.str "many") (.int 1))) := by
  have hrules : ∀ (name : String) (args : List Value),
      ((fun _ _ => .eof : Rules) name args).Aloof := fun _ _ => ⟨trivial, nofun⟩
  have hg : (Grammar.many (.bind (.is (.str "a")) refusing)).Aloof := by
    constructor
    · refine ⟨trivial, trivial, trivial, fun v => ?_⟩
      unfold refusing
      split <;> exact trivial
    · refine ⟨nofun, nofun, nofun, fun v => ?_⟩
      unfold refusing
      split <;> exact nofun
  have hs : State.InRange ⟨0, .null⟩ (Cache.fresh (.ofTokens numberedTokens)) :=
    State.inRange_start _ _
  have hnone : ¬(Grammar.many (.bind (.is (.str "a")) refusing)).Stalls (fun _ _ => .eof) 4
      (.opened (.ofTokens numberedTokens) .fresh) ⟨0, .null⟩ := by
    rintro ⟨combinator, position, ctx', hmasked⟩
    have hresult : (((Grammar.many (.bind (.is (.str "a")) refusing)).observed
        (.onLeaves Parser.masked) (fun _ _ => .eof) ⟨0, .null⟩).run 4
          (.opened (.ofTokens numberedTokens) .fresh)).result? = some (.error (.general [])) := by
      cbv
    rw [hmasked] at hresult
    cases hresult
  refine ⟨hrules, hg, rfl, hs, hnone, ?_⟩
  rw [(guard_conservative (fun _ _ => .eof) hrules _ hg 4
    (.opened (.ofTokens numberedTokens) .fresh) rfl ⟨0, .null⟩ hs).2 hnone (.bool false)]
  cbv

end PullParse
