import PullParse.Proofs.Reading.Transparency
import PullParse.Proofs.Repetition.Loops
import PullParse.Proofs.UserData.Blindness

/-!
# What becomes of values that are put

A value that is put survives only on the path to the match. A parser that goes back
does so to a state from before, and with it to the user data from before: looking
ahead ends in the state it has started in, the second alternative starts in that of
the first, and the match of a repetition is in the state in which its last round has
started. So two runs that differ in their user data stay beside each other to the
end, unless the grammar looks, and there they carry the same value if one has been
put on the way.
-/

namespace PullParse

/-! ## What is given up -/

namespace Parser

variable {p q : Parser} {s s' : State} {value : Value} {budget : Nat} {ctx ctx' : Context}

/-- A parser that looks ahead matches in the state that it has started in. -/
theorem state_lookahead
    (h : (p.lookahead s).run budget ctx = .done (.matched value s') ctx') : s' = s := by
  obtain ⟨outcome, ctx₁, -, hend⟩ := Run.done_bind h
  cases outcome with
  | matched value₁ s₁ => cases hend; rfl
  | noMatch => cases hend

theorem state_notFollowedBy
    (h : (p.notFollowedBy s).run budget ctx = .done (.matched value s') ctx') : s' = s := by
  obtain ⟨outcome, ctx₁, -, hend⟩ := Run.done_bind h
  cases outcome with
  | matched value₁ s₁ => cases hend
  | noMatch => cases hend; rfl

/-- Behind an alternative that does not match, the other one starts from the same state. -/
theorem run_either_of_noMatch (h : (p s).run budget ctx = .done .noMatch ctx') :
    (p.either q s).run budget ctx = (q s).run budget ctx' := by
  rw [either, Run.run_bind, h]
  rfl

end Parser

namespace Repetition

/-- The loops that a round without a match ends with a match. -/
def EndsByMiss : Repetition → Prop
  | .manyUntil _ _ => False
  | .many _ | .skipMany _ | .many1 _ | .skipMany1 _ | .sepBy1 _ _ => True

/-- The states in which a repetition starts a round, each behind the round before if that has
matched, and the contexts there. -/
inductive Reaches (r : Repetition) (budget : Nat) (s : State) (ctx : Context) :
    State → Context → Prop
  | loop (hfirst : r.first? = none) : Reaches r budget s ctx s ctx
  | first {p value s₀ ctx₀} (hfirst : r.first? = some p)
      (hp : (p s).run budget ctx = .done (.matched value s₀) ctx₀) : Reaches r budget s ctx s₀ ctx₀
  | round {s₁ ctx₁ value s₂ ctx₂} (h : Reaches r budget s ctx s₁ ctx₁)
      (hround : (r.round s₁).run budget ctx₁ = .done (.again value s₂) ctx₂) :
      Reaches r budget s ctx s₂ ctx₂

variable {r : Repetition} {guard : Bool} {budget left : Nat} {s s' : State} {values : List Value}
variable {value : Value} {ctx ctx' : Context}

/-- A round that ends such a loop ends it in the state that it has started in. A separator without
a match behind it is given up with the round. -/
theorem EndsByMiss.round_last (hr : r.EndsByMiss)
    (h : (r.round s).run budget ctx = .done (.last s') ctx') : s' = s := by
  cases r with
  | many p | skipMany p | many1 p | skipMany1 p =>
      obtain ⟨outcome, ctx₁, -, hend⟩ := Run.done_bind h
      cases outcome with
      | matched value s₁ => cases hend
      | noMatch => cases hend; rfl
  | manyUntil p terminator => exact hr.elim
  | sepBy1 p sep =>
      obtain ⟨outcome, ctx₁, -, hend⟩ := Run.done_bind h
      cases outcome with
      | noMatch => cases hend; rfl
      | matched value between =>
          obtain ⟨outcome, ctx₂, -, hend⟩ := Run.done_bind hend
          cases outcome with
          | matched value s₁ => cases hend
          | noMatch => cases hend; rfl

theorem Loops.last_round {s₀ : State} {ctx₀ : Context}
    (h : r.Loops guard budget left s values ctx (.done (.matched value s') ctx'))
    (hstart : r.Reaches budget s₀ ctx₀ s ctx) :
    ∃ s₁ ctx₁, r.Reaches budget s₀ ctx₀ s₁ ctx₁ ∧
      (r.round s₁).run budget ctx₁ = .done (.last s') ctx' := by
  generalize he : Ending.done (Outcome.matched value s') ctx' = e at h
  induction h with
  | last hround => cases he; exact ⟨_, _, hstart, hround⟩
  | again hround _ _ ih => exact ih (hstart.round hround) he
  | exhausted | missed | stalled | raised | unfinished => cases he

/-- The match of a repetition comes of the round that ends it. -/
theorem last_round (h : (r.parser s).run budget ctx = .done (.matched value s') ctx') :
    ∃ s₁ ctx₁, r.Reaches budget s ctx s₁ ctx₁ ∧
      (r.round s₁).run budget ctx₁ = .done (.last s') ctx' := by
  generalize he : Ending.done (Outcome.matched value s') ctx' = e at h
  cases ends_iff.mpr h with
  | loop hfirst hloops => subst he; exact hloops.last_round (.loop hfirst)
  | first hfirst hp hloops => subst he; exact hloops.last_round (.first hfirst hp)
  | noMatch | raised | unfinished => cases he

end Repetition

/-- **Two runs that differ in their user data stay beside each other.** A grammar that does not look
at the user data, over rules that do not, follows a track: from the same position in the same
context it makes the same matches, mismatches and faults in the same final context, whatever user
data it carries, and so the same calls of the callbacks and of the producer. If it matches, both
runs carry the value put last on the path, or each what it has started with if none has been put
there. What is put elsewhere is given up: a match by looking ahead is in the state that it has
started in, an alternative behind one that does not match starts in the same state, and the match of
a repetition is in the state in which its last round has started, which for one up to a terminator
is the round that the terminator ends. -/
theorem userData_unseen {calls : String → List Value → Prop} {rules : Rules}
    (hrules : ∀ name args, calls name args → (rules name args).Blind calls) {g : Grammar}
    (hg : g.Blind calls) (k : Int) (data data' : Value) (budget : Nat) (ctx : Context) :
    Ending.Parallel data data' ((g.track rules k).run budget ctx)
        ((g.parser rules ⟨k, data⟩).run budget ctx) ((g.parser rules ⟨k, data'⟩).run budget ctx) ∧
      (∀ (p : Parser) (s : State) value s' ctx',
        (p.lookahead s).run budget ctx = .done (.matched value s') ctx' ∨
          (p.notFollowedBy s).run budget ctx = .done (.matched value s') ctx' → s' = s) ∧
      (∀ (p q : Parser) (s : State) ctx', (p s).run budget ctx = .done .noMatch ctx' →
        (p.either q s).run budget ctx = (q s).run budget ctx') ∧
      ∀ (r : Repetition) (s : State) value s' ctx',
        (r.parser s).run budget ctx = .done (.matched value s') ctx' →
          ∃ s₁ ctx₁, r.Reaches budget s ctx s₁ ctx₁ ∧
            (r.round s₁).run budget ctx₁ = .done (.last s') ctx' ∧ (r.EndsByMiss → s' = s₁) := by
  refine ⟨(Grammar.parser_follows hrules hg).parallel k data data' budget ctx, ?_, ?_, ?_⟩
  · rintro p s value s' ctx' (hlookahead | hnot)
    · exact Parser.state_lookahead hlookahead
    · exact Parser.state_notFollowedBy hnot
  · exact fun p q s ctx' hnoMatch => Parser.run_either_of_noMatch hnoMatch
  · intro r s value s' ctx' hmatched
    obtain ⟨s₁, ctx₁, hreaches, hround⟩ := Repetition.last_round hmatched
    exact ⟨s₁, ctx₁, hreaches, hround, fun hr => hr.round_last hround⟩

/-- Puts each item that it takes, and also puts values while looking ahead, in an alternative that
does not match, and in the round behind the items. -/
def puttingItems : Grammar :=
  .andThen (.lookahead (.putUserData (.str "ahead")))
    (.andThen (.maybe (.andThen (.putUserData (.str "alternative")) (.is (.str "b"))))
      (.many (.either
        (.bind (.is (.str "a")) fun value => .andThen (.putUserData value) (.pure value))
        (.andThen (.putUserData (.str "round")) (.is (.str "c"))))))

/-- The two items are all that is put on the path, and both runs carry the second one in the end. -/
theorem userData_unseen_items :
    (∀ (name : String) (args : List Value), False →
        ((fun _ _ => .eof : Rules) name args).Blind fun _ _ => False) ∧
      (puttingItems.Blind fun _ _ => False) ∧
      ((puttingItems.track (fun _ _ => .eof) 0).run 4
        (.opened (.ofTokens threeTokens) .fresh)).result? =
          some (.ok (.matched (.list [.int 1, .int 2]) ⟨2, [.int 1, .int 2]⟩)) ∧
      ∀ data data',
        ((puttingItems.parser (fun _ _ => .eof) ⟨0, data⟩).run 4
          (.opened (.ofTokens threeTokens) .fresh)).result? =
            some (.ok (.matched (.list [.int 1, .int 2]) ⟨2, .int 2⟩)) ∧
        (puttingItems.parser (fun _ _ => .eof) ⟨0, data'⟩).run 4
          (.opened (.ofTokens threeTokens) .fresh) =
            (puttingItems.parser (fun _ _ => .eof) ⟨0, data⟩).run 4
              (.opened (.ofTokens threeTokens) .fresh) := by
  have hrules : ∀ (name : String) (args : List Value), False →
      ((fun _ _ => .eof : Rules) name args).Blind fun _ _ => False := nofun
  have hg : puttingItems.Blind fun _ _ => False :=
    ⟨trivial, ⟨⟨⟨trivial, trivial⟩, trivial⟩, trivial⟩, ⟨trivial, fun _ => ⟨trivial, trivial⟩⟩,
      trivial, trivial⟩
  have htrack : ((puttingItems.track (fun _ _ => .eof) 0).run 4
      (.opened (.ofTokens threeTokens) .fresh)).result? =
        some (.ok (.matched (.list [.int 1, .int 2]) ⟨2, [.int 1, .int 2]⟩)) := by cbv
  refine ⟨hrules, hg, htrack, fun data data' => ?_⟩
  obtain ⟨last, hdone⟩ := Ending.exists_done_of_result? htrack
  have hparallel := (userData_unseen hrules hg 0 data data' 4
    (.opened (.ofTokens threeTokens) .fresh)).1
  rw [hdone] at hparallel
  generalize hputs : [Value.int 1, Value.int 2] = puts at hparallel
  generalize (puttingItems.parser (fun _ _ => .eof) ⟨0, data⟩).run 4
    (.opened (.ofTokens threeTokens) .fresh) = ending at hparallel ⊢
  generalize (puttingItems.parser (fun _ _ => .eof) ⟨0, data'⟩).run 4
    (.opened (.ofTokens threeTokens) .fresh) = ending' at hparallel ⊢
  cases hparallel with
  | kept => cases hputs
  | @replaced _ _ before value =>
      have hsplit : [Value.int 1] ++ [.int 2] = before ++ [value] := hputs
      obtain ⟨-, hvalue⟩ := List.append_inj' hsplit rfl
      cases hvalue
      exact ⟨rfl, rfl⟩

end PullParse
