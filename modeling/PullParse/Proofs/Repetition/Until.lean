import PullParse.Proofs.Grammar.Derived
import PullParse.Proofs.Laziness.Factoring
import PullParse.Proofs.Repetition.Family

/-!
# Repeating up to a terminator

A repetition up to a terminator can be written with `many`: as often as the
terminator does not match, the element does, and then the terminator has to. What
is written so tries the terminator once more than needed, since `many` does not
tell for which of two reasons it has ended. The second time the terminator is
read it gives what it has given the first time and pulls nothing, so nothing else
can be told apart, apart from the name under which a round without progress
stalls.
-/

namespace PullParse

variable {α β : Type} {name name' : String}

theorem Renamed.isSome {result result' : Option (Except Fault α)}
    (h : Renamed name name' result result') : result.isSome = result'.isSome := by
  cases h with
  | same => rfl
  | stalled => rfl

/-! ## Readings up to a name -/

namespace Reading

/-- The readings look at the same positions, and the results differ at most in the name under which
a repetition has stalled. -/
structure SameBut (name name' : String) (x y : Reading α) : Prop where
  result : Renamed name name' x.result y.result
  examined : x.examined = y.examined

namespace SameBut

theorem refl (x : Reading α) : SameBut name name' x x := ⟨.same _, rfl⟩

/-- After the same beginning. -/
theorem bind (x : Reading α) {f g : α → Reading β} (h : ∀ a, SameBut name name' (f a) (g a)) :
    SameBut name name' (x >>= f) (x >>= g) := by
  cases hx : x.result with
  | none =>
      rw [bind_of_unfinished hx, bind_of_unfinished hx]
      exact refl _
  | some result =>
      cases result with
      | error fault =>
          rw [bind_of_error hx, bind_of_error hx]
          exact refl _
      | ok a =>
          rw [bind_of_ok hx, bind_of_ok hx]
          exact ⟨(h a).result, by rw [(h a).examined]⟩

/-- Before the same continuation, which a stalled repetition leaves out under either name. -/
theorem before {x y : Reading α} (h : SameBut name name' x y) (f : α → Reading β) :
    SameBut name name' (x >>= f) (y >>= f) := by
  obtain ⟨result, examined⟩ := x
  obtain ⟨result', examined'⟩ := y
  obtain ⟨hresult, rfl : examined = examined'⟩ := h
  cases hresult with
  | same => exact refl _
  | stalled position => exact ⟨.stalled position, rfl⟩

end SameBut

end Reading

namespace Reader

open Reading (Alike SameBut)

/-- Rounds under two names. -/
theorem rounds_sameBut (name name' : String) (guard : Bool) (r : Reader) (left : Nat) (s : State) :
    SameBut name name' (rounds name guard r left s) (rounds name' guard r left s) := by
  induction left generalizing s with
  | zero => exact .refl _
  | succ left ih =>
      rw [rounds, rounds]
      refine .bind _ fun outcome => ?_
      cases outcome with
      | noMatch => exact .refl _
      | matched value s' =>
          by_cases hstall : Parser.stalls guard s s' = true
          · simp only [hstall, if_true]
            exact ⟨.stalled (.int s.position), rfl⟩
          · simp only [hstall]
            exact (ih s').before _

/-! ## Rounds up to a terminator -/

/-- The element, where the terminator does not match. -/
def barring (terminator r : Reader) : Reader := fun s => do
  match ← (do
    match ← terminator s with
    | .matched _ _ => return Outcome.noMatch
    | .noMatch => return .matched .null s) with
  | .matched _ s' => r s'
  | .noMatch => return .noMatch

/-- What is found with the values of the rounds, by what the terminator does behind them. -/
def closed (values : List Value) : Outcome → Reading (Option (List Value × State))
  | .matched _ s' => return some (values, s')
  | .noMatch => return none

/-- The terminator behind the rounds. -/
def closing (terminator : Reader) (all : List Value × State) :
    Reading (Option (List Value × State)) :=
  terminator all.2 >>= closed all.1

/-- One more value in front of those of the rounds that are left. -/
def withFirst (value : Value) :
    Option (List Value × State) → Reading (Option (List Value × State))
  | some rest => return some (value :: rest.1, rest.2)
  | none => return none

theorem closing_cons (terminator : Reader) (value : Value) (rest : List Value × State) :
    closing terminator (value :: rest.1, rest.2) = closing terminator rest >>= withFirst value := by
  rw [closing, closing, Reading.bind_assoc]
  refine congrArg (terminator rest.2 >>= ·) (funext fun outcome => ?_)
  cases outcome with
  | matched _ s' => rfl
  | noMatch => rfl

/-- Rounds up to a terminator are rounds in which it does not match, with the terminator behind
them. -/
theorem roundsUntil_alike (guard : Bool) (r terminator : Reader) (left : Nat) (seen : List Int)
    (s : State) :
    Alike seen (roundsUntil guard r terminator left s)
      (rounds "many_until" guard (barring terminator r) left s >>= closing terminator) := by
  induction left generalizing seen s with
  | zero => exact .refl _ _
  | succ left ih =>
      rw [roundsUntil, rounds, barring]
      simp only [Reading.bind_assoc]
      refine .bind fun last hlast => ?_
      -- the rounds have ended, for either reason, and the terminator is read for a second time
      have hagain : ∀ seen, (terminator s).examined ⊆ seen →
          Alike seen (closed [] last) (closing terminator ([], s)) :=
        fun seen hseen => (Alike.again hlast hseen (closed [])).symm
      cases last with
      | matched _ s' => exact hagain _ (List.subset_append_right _ _)
      | noMatch =>
          show Alike _ (r s >>= _) (r s >>= _)
          refine .bind fun outcome _ => ?_
          cases outcome with
          | noMatch =>
              refine hagain _ ?_
              rw [List.append_assoc]
              exact List.subset_append_of_subset_right _ (List.subset_append_left _ _)
          | matched value s' =>
              dsimp only
              by_cases hstall : Parser.stalls guard s s' = true
              · rw [if_pos hstall, if_pos hstall]
                exact .refl _ _
              · rw [if_neg hstall, if_neg hstall, Reading.bind_assoc]
                have hrest := (ih (seen ++ (terminator s).examined ++ (r s).examined) s').before
                  (withFirst value)
                rw [Reading.bind_assoc] at hrest
                simp only [← closing_cons] at hrest
                exact hrest

end Reader

namespace Grammar

/-- As many as the terminator lets through, and then the terminator, which is left out. -/
def untilByLookahead (p terminator : Grammar) : Grammar :=
  .bind (.many (.sequence (.notFollowedBy terminator) p [])) fun values =>
    .fmap (fun _ => return values) terminator

variable {t : TokenStream} {settings : Settings} {budget : Nat}
variable {rule : String → List Value → Reader} {s : State}

/-- How the encoding is read. -/
theorem read_untilByLookahead (p terminator : Grammar) :
    (untilByLookahead p terminator).read t settings budget rule s =
      Reader.rounds "many" settings.guard.truth
          (.barring (terminator.read t settings budget rule) (p.read t settings budget rule))
          budget s >>=
        Reader.closing (terminator.read t settings budget rule) >>=
        fun found => return .ofValues found := by
  rw [untilByLookahead, read, read]
  dsimp only
  rw [Reading.bind_assoc, Reading.bind_assoc]
  refine congrArg (Reader.rounds _ _ _ _ _ >>= ·) (funext fun all => ?_)
  rw [Reader.closing, Reading.bind_assoc]
  show (fmap (fun _ => return .list all.1) terminator).read t settings budget rule all.2 = _
  rw [fmap, read]
  refine congrArg (terminator.read t settings budget rule all.2 >>= ·) (funext fun outcome => ?_)
  cases outcome with
  | matched _ s' => rfl
  | noMatch => rfl

/-- The repetition up to a terminator and its encoding are read alike, up to a name. -/
theorem reader_manyUntil (rules : Rules) (t : TokenStream) (settings : Settings) (budget : Nat)
    (p terminator : Grammar) (s : State) :
    Renamed "many_until" "many"
        ((manyUntil p terminator).reader rules t settings budget s).result
        ((untilByLookahead p terminator).reader rules t settings budget s).result ∧
      ∀ n, Cache.filledTo n ((manyUntil p terminator).reader rules t settings budget s).examined =
        Cache.filledTo n
          ((untilByLookahead p terminator).reader rules t settings budget s).examined := by
  have halike := (Reader.roundsUntil_alike settings.guard.truth (p.reader rules t settings budget)
    (terminator.reader rules t settings budget) budget [] s).before
      fun found => (return .ofValues found : Reading Outcome)
  have hrenamed := ((Reader.rounds_sameBut "many_until" "many" settings.guard.truth
    (.barring (terminator.reader rules t settings budget) (p.reader rules t settings budget))
      budget s).before (Reader.closing (terminator.reader rules t settings budget))).before
        fun found => (return .ofValues found : Reading Outcome)
  rw [reader, reader, read_untilByLookahead, read]
  refine ⟨?_, fun n => ?_⟩
  · exact halike.result ▸ hrenamed.result
  · exact (halike.filled n).trans (congrArg (Cache.filledTo n) hrenamed.examined)

end Grammar

/-! ## Runs -/

/-- The endings have the same value or fault, apart from the name under which a repetition has
stalled, and the caches that they leave have pulled the same tokens with the same calls. -/
structure Ending.MatchesBut (name name' : String) (e e' : Ending Context α) : Prop where
  result : Renamed name name' e.result? e'.result?
  cache : e.final?.map Context.cache = e'.final?.map Context.cache

/-- **A repetition up to a terminator is its lookahead encoding.** Over a producer that delivers a
stream, from every state in range, under every guard and within every budget, it ends as the
encoding does: with the same values, in the same state behind the terminator, without a match where
neither the element nor the terminator has one, with the same fault, or not at all; only a round
that stalls goes by another name. The producer and the pulled tokens are left the same. -/
theorem until_by_lookahead (rules : Rules) (hrules : ∀ name args, (rules name args).Plain)
    (p terminator : Grammar) (hp : p.Plain) (hterminator : terminator.Plain) (src : Producer)
    (t : TokenStream) (hsrc : src.Delivers t) (budget : Nat) (ctx : Context)
    (hctx : ctx.cache.Reached src) (s : State) (hs : s.InRange ctx.cache) :
    (((Grammar.manyUntil p terminator).parser rules s).run budget ctx).MatchesBut
      "many_until" "many"
      (((Grammar.untilByLookahead p terminator).parser rules s).run budget ctx) := by
  have huntil : (Grammar.manyUntil p terminator).Plain := ⟨trivial, hp, hterminator⟩
  have hencoded : (Grammar.untilByLookahead p terminator).Plain :=
    ⟨trivial, ⟨trivial, trivial, ⟨trivial, hterminator⟩, hp⟩,
      fun _ => Grammar.plain_fmap hterminator⟩
  have hholds := hctx.holds hsrc
  have h : Run.Reads .any src t budget ctx Outcome.Same
      ((Grammar.manyUntil p terminator).parser rules s) _ :=
    Grammar.reads hsrc hrules huntil hholds hs
  have h' : Run.Reads .any src t budget ctx Outcome.Same
      ((Grammar.untilByLookahead p terminator).parser rules s) _ :=
    Grammar.reads hsrc hrules hencoded hholds hs
  obtain ⟨hresult, hfilled⟩ :=
    Grammar.reader_manyUntil rules t ctx.session.settings budget p terminator s
  refine ⟨?_, h.cache_eq h' hresult.isSome hfilled⟩
  rw [h.result?_eq, h'.result?_eq]
  exact hresult

/-- In front of the third token neither the end nor an item is found, and the round in place stalls
both forms there, each under its own name. -/
theorem until_by_lookahead_stalled :
    (∀ (name : String) (args : List Value), ((fun _ _ => .eof : Rules) name args).Plain) ∧
      (Grammar.maybe (.is (.str "a"))).Plain ∧ Grammar.eof.Plain ∧
      (Producer.ofTokens threeTokens).Delivers (.ofList threeTokens) ∧
      State.InRange ⟨0, .null⟩ (Cache.fresh (.ofTokens threeTokens)) ∧
      (((Grammar.manyUntil (.maybe (.is (.str "a"))) .eof).parser (fun _ _ => .eof) ⟨0, .null⟩).run
        4 (.opened (.ofTokens threeTokens) .fresh)).result? =
          some (.error (.stalled (.str "many_until") (.int 2))) ∧
      (((Grammar.untilByLookahead (.maybe (.is (.str "a"))) .eof).parser (fun _ _ => .eof)
        ⟨0, .null⟩).run 4 (.opened (.ofTokens threeTokens) .fresh)).result? =
          some (.error (.stalled (.str "many") (.int 2))) ∧
      ((((Grammar.untilByLookahead (.maybe (.is (.str "a"))) .eof).parser (fun _ _ => .eof)
        ⟨0, .null⟩).run 4 (.opened (.ofTokens threeTokens) .fresh)).final?.map Context.cache).map
          (fun c => c.producer.calls) = some 3 := by
  have hrules : ∀ (name : String) (args : List Value),
      ((fun _ _ => .eof : Rules) name args).Plain := fun _ _ => trivial
  have hp : (Grammar.maybe (.is (.str "a"))).Plain := ⟨trivial, ⟨trivial, trivial, trivial⟩, trivial⟩
  have hsrc := Producer.delivers_ofTokens threeTokens
  have hs : State.InRange ⟨0, .null⟩ (Cache.fresh (.ofTokens threeTokens)) :=
    State.inRange_start _ _
  obtain ⟨-, hcache⟩ := until_by_lookahead (fun _ _ => .eof) hrules
    (.maybe (.is (.str "a"))) .eof hp trivial _ _ hsrc 4 (.opened (.ofTokens threeTokens) .fresh)
    ⟨[], rfl⟩ ⟨0, .null⟩ hs
  refine ⟨hrules, hp, trivial, hsrc, hs, ?_, ?_, ?_⟩
  · cbv
  · cbv
  · rw [← hcache]
    cbv

end PullParse
