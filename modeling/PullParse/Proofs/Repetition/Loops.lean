import PullParse.Parser.Repetition
import PullParse.Proofs.Run.Endings

/-!
# How a repetition loops

All repetitions loop in the same way. A round either ends the loop or adds a
value and goes on from a new state, in the context that it has left, whatever
it has changed there. What stays the same is the guard: it is the one of the
context in which the loop starts, which for a repetition with a mandatory first
match is the context behind that match. A round that consumes nothing ends the
loop with a fault if that guard is active, and is a round like others if not.
-/

namespace PullParse

/-- Whether the settings of a context guard repetitions. -/
def Context.isGuarded (ctx : Context) : Bool := ctx.session.settings.guard.truth

/-- The repetitions, with their parsers. -/
inductive Repetition where
  | many (p : Parser)
  | skipMany (p : Parser)
  | many1 (p : Parser)
  | skipMany1 (p : Parser)
  | manyUntil (p terminator : Parser)
  | sepBy1 (p sep : Parser)

/-- What a round makes of the loop. -/
inductive Round where
  /-- The loop ends with a match in this state. -/
  | last (s : State)
  /-- The loop ends without a match. -/
  | missed
  /-- The loop goes on with one more value. -/
  | again (value : Value) (s : State)

namespace Repetition

def parser : Repetition → Parser
  | .many p => p.many
  | .skipMany p => p.skipMany
  | .many1 p => p.many1
  | .skipMany1 p => p.skipMany1
  | .manyUntil p terminator => p.manyUntil terminator
  | .sepBy1 p sep => p.sepBy1 sep

/-- The name that its fault carries. -/
def name : Repetition → String
  | .many _ => "many"
  | .skipMany _ => "skip_many"
  | .many1 _ => "many1"
  | .skipMany1 _ => "skip_many1"
  | .manyUntil _ _ => "many_until"
  | .sepBy1 _ _ => "sep_by1"

/-- The parser that has to match before the loop starts, if there is one. -/
def first? : Repetition → Option Parser
  | .many _ | .skipMany _ | .manyUntil _ _ => none
  | .many1 p | .skipMany1 p | .sepBy1 p _ => some p

/-- The value of a match, given the values of the rounds. -/
def result : Repetition → List Value → Value
  | .skipMany _ | .skipMany1 _ => fun _ => .null
  | _ => .list

/-- One round of the loop. -/
def round : Repetition → State → Run Context Round
  | .many p | .skipMany p | .many1 p | .skipMany1 p => fun s => do
    match ← p s with
    | .noMatch => return .last s
    | .matched value s' => return .again value s'
  | .manyUntil p terminator => fun s => do
    match ← terminator s with
    | .matched _ s' => return .last s'
    | .noMatch =>
      match ← p s with
      | .noMatch => return .missed
      | .matched value s' => return .again value s'
  | .sepBy1 p sep => fun s => do
    match ← sep s with
    | .noMatch => return .last s
    | .matched _ between =>
      match ← p between with
      | .noMatch => return .last s
      | .matched value s' => return .again value s'

/-- The rest of a loop, with at most `left` rounds and the values so far, the newest first. -/
def loop (r : Repetition) (guard : Bool) : Nat → State → List Value → Run Context Outcome
  | 0, _, _ => Run.unfinished
  | left + 1, s, values => do
    match ← r.round s with
    | .last s' => return .matched (r.result values.reverse) s'
    | .missed => return .noMatch
    | .again value s' =>
      if Parser.stalls guard s s' then Run.raise (Parser.stall r.name s)
      else r.loop guard left s' (value :: values)

/-- The rest of a loop under a guard, round by round, from the context that the round before has
left to the end of the loop. -/
inductive Loops (r : Repetition) (guard : Bool) (budget : Nat) :
    Nat → State → List Value → Context → Ending Context Outcome → Prop
  | exhausted {s values ctx} : Loops r guard budget 0 s values ctx .unfinished
  | last {left s values ctx s' ctx'} (h : (r.round s).run budget ctx = .done (.last s') ctx') :
      Loops r guard budget (left + 1) s values ctx
        (.done (.matched (r.result values.reverse) s') ctx')
  | missed {left s values ctx ctx'} (h : (r.round s).run budget ctx = .done .missed ctx') :
      Loops r guard budget (left + 1) s values ctx (.done .noMatch ctx')
  | stalled {left s values ctx value s' ctx'}
      (h : (r.round s).run budget ctx = .done (.again value s') ctx') (hguard : guard = true)
      (hposition : s'.position = s.position) :
      Loops r guard budget (left + 1) s values ctx
        (.raised (.stalled (.str r.name) (.int s.position)) ctx')
  | again {left s values ctx value s' ctx' e}
      (h : (r.round s).run budget ctx = .done (.again value s') ctx')
      (hmoved : guard = true → s'.position ≠ s.position)
      (hrest : Loops r guard budget left s' (value :: values) ctx' e) :
      Loops r guard budget (left + 1) s values ctx e
  | raised {left s values ctx fault ctx'}
      (h : (r.round s).run budget ctx = .raised fault ctx') :
      Loops r guard budget (left + 1) s values ctx (.raised fault ctx')
  | unfinished {left s values ctx} (h : (r.round s).run budget ctx = .unfinished) :
      Loops r guard budget (left + 1) s values ctx .unfinished

/-- How a repetition comes to its end: by its loop alone, or by its first match and then its loop.
The loop is under the guard of the context in which it starts. -/
inductive Ends (r : Repetition) (budget : Nat) (s : State) (ctx : Context) :
    Ending Context Outcome → Prop
  | loop {e} (hfirst : r.first? = none) (h : r.Loops ctx.isGuarded budget budget s [] ctx e) :
      Ends r budget s ctx e
  | first {p value s' ctx' e} (hfirst : r.first? = some p)
      (hp : (p s).run budget ctx = .done (.matched value s') ctx')
      (h : r.Loops ctx'.isGuarded budget budget s' [value] ctx' e) : Ends r budget s ctx e
  | noMatch {p ctx'} (hfirst : r.first? = some p)
      (hp : (p s).run budget ctx = .done .noMatch ctx') : Ends r budget s ctx (.done .noMatch ctx')
  | raised {p fault ctx'} (hfirst : r.first? = some p)
      (hp : (p s).run budget ctx = .raised fault ctx') : Ends r budget s ctx (.raised fault ctx')
  | unfinished {p} (hfirst : r.first? = some p) (hp : (p s).run budget ctx = .unfinished) :
      Ends r budget s ctx .unfinished

variable {r : Repetition} {guard : Bool} {budget left : Nat} {s : State} {values : List Value}
variable {ctx : Context} {e : Ending Context Outcome}

/-! ## Loops round by round -/

theorem not_stalls_iff {s s' : State} :
    ¬Parser.stalls guard s s' = true ↔ (guard = true → s'.position ≠ s.position) := by
  simp [Parser.stalls]

/-- The loop goes round by round. -/
theorem loops_loop (r : Repetition) (guard : Bool) (budget left : Nat) (s : State)
    (values : List Value) (ctx : Context) :
    r.Loops guard budget left s values ctx ((r.loop guard left s values).run budget ctx) := by
  induction left generalizing s values ctx with
  | zero => exact .exhausted
  | succ left ih =>
      rw [loop, Run.run_bind]
      cases hround : (r.round s).run budget ctx with
      | done round ctx' =>
          cases round with
          | last s' => exact .last hround
          | missed => exact .missed hround
          | again value s' =>
              simp only [Ending.andThen]
              by_cases hstalls : Parser.stalls guard s s' = true
              · have hstalled : guard = true ∧ s'.position = s.position := by
                  simpa [Parser.stalls] using hstalls
                rw [if_pos hstalls]
                exact .stalled hround hstalled.1 hstalled.2
              · rw [if_neg hstalls]
                exact .again hround (not_stalls_iff.mp hstalls) (ih _ _ _)
      | raised fault ctx' => exact .raised hround
      | unfinished => exact .unfinished hround

/-- What goes round by round is the loop. -/
theorem Loops.eq (h : r.Loops guard budget left s values ctx e) :
    (r.loop guard left s values).run budget ctx = e := by
  induction h with
  | exhausted => rfl
  | last hround => rw [loop, Run.run_bind, hround]; rfl
  | missed hround => rw [loop, Run.run_bind, hround]; rfl
  | @stalled _ s _ _ _ s' _ hround hguard hposition =>
      have hstalls : Parser.stalls guard s s' = true := by simp [Parser.stalls, hguard, hposition]
      rw [loop, Run.run_bind, hround]
      simp only [Ending.andThen]
      rw [if_pos hstalls]
      rfl
  | again hround hmoved _ ih =>
      rw [loop, Run.run_bind, hround]
      simp only [Ending.andThen]
      rw [if_neg (not_stalls_iff.mpr hmoved)]
      exact ih
  | raised hround => rw [loop, Run.run_bind, hround]; rfl
  | unfinished hround => rw [loop, Run.run_bind, hround]; rfl

/-! ## Repetitions are loops -/

/-- The rounds of a repetition without a terminator or a separator. The values that were there
before the first round are the oldest ones. -/
theorem rounds_eq_loop (r : Repetition) (p : Parser)
    (hround : r.round = fun s => do
      match ← p s with
      | .noMatch => return .last s
      | .matched value s' => return .again value s')
    (before : List Value) (guard : Bool) (left : Nat) (s : State) (values : List Value) :
    (do
      let all ← Parser.rounds r.name guard p left s values
      return .matched (r.result (before ++ all.1)) all.2) =
      r.loop guard left s (values ++ before.reverse) := by
  induction left generalizing s values with
  | zero => rfl
  | succ left ih =>
      ext budget ctx
      rw [Parser.rounds, loop, hround]
      simp only [Run.run_bind]
      cases (p s).run budget ctx with
      | done outcome ctx' =>
          cases outcome with
          | noMatch =>
              simp only [Ending.andThen, Run.run_pure, List.reverse_append, List.reverse_reverse]
          | matched value s' =>
              simp only [Ending.andThen, Run.run_pure]
              by_cases hstalls : Parser.stalls guard s s' = true
              · rw [if_pos hstalls, if_pos hstalls]
                rfl
              · rw [if_neg hstalls, if_neg hstalls, ← List.cons_append, ← ih]
                rfl
      | raised fault ctx' => rfl
      | unfinished => rfl

theorem roundsUntil_eq_loop (p terminator : Parser) (guard : Bool) (left : Nat) (s : State)
    (values : List Value) :
    Parser.roundsUntil guard p terminator left s values =
      (manyUntil p terminator).loop guard left s values := by
  induction left generalizing s values with
  | zero => rfl
  | succ left ih =>
      ext budget ctx
      rw [Parser.roundsUntil, loop, round]
      simp only [Run.run_bind]
      cases (terminator s).run budget ctx with
      | done outcome ctx' =>
          cases outcome with
          | matched value s' => rfl
          | noMatch =>
              simp only [Ending.andThen, Run.run_bind]
              cases (p s).run budget ctx' with
              | done outcome ctx'' =>
                  cases outcome with
                  | noMatch => rfl
                  | matched value s' =>
                      simp only [Run.run_pure, ih]
                      rfl
              | raised fault ctx'' => rfl
              | unfinished => rfl
      | raised fault ctx' => rfl
      | unfinished => rfl

theorem roundsSeparated_eq_loop (p sep : Parser) (guard : Bool) (left : Nat) (s : State)
    (values : List Value) :
    Parser.roundsSeparated guard p sep left s values =
      (sepBy1 p sep).loop guard left s values := by
  induction left generalizing s values with
  | zero => rfl
  | succ left ih =>
      ext budget ctx
      rw [Parser.roundsSeparated, loop, round]
      simp only [Run.run_bind]
      cases (sep s).run budget ctx with
      | done outcome ctx' =>
          cases outcome with
          | noMatch => rfl
          | matched value between =>
              simp only [Ending.andThen, Run.run_bind]
              cases (p between).run budget ctx' with
              | done outcome ctx'' =>
                  cases outcome with
                  | noMatch => rfl
                  | matched value s' =>
                      simp only [Run.run_pure, ih]
                      rfl
              | raised fault ctx'' => rfl
              | unfinished => rfl
      | raised fault ctx' => rfl
      | unfinished => rfl

/-- The loop under the guard of the context in which it starts. -/
def start (r : Repetition) (s : State) (values : List Value) : Run Context Outcome := do
  let guard ← Parser.guarded
  Run.withBudget fun budget => r.loop guard budget s values

theorem run_start (r : Repetition) (s : State) (values : List Value) (budget : Nat)
    (ctx : Context) :
    (r.start s values).run budget ctx =
      (r.loop ctx.isGuarded budget s values).run budget ctx := rfl

/-- The rounds of a repetition without a terminator or a separator are its loop. -/
theorem repeated_eq_start (r : Repetition) (p : Parser)
    (hround : r.round = fun s => do
      match ← p s with
      | .noMatch => return .last s
      | .matched value s' => return .again value s')
    (before : List Value) (s : State) :
    (do
      let all ← Parser.repeated r.name p s
      return .matched (r.result (before ++ all.1)) all.2) = r.start s before.reverse := by
  ext budget ctx
  have hloop := congrArg (fun x : Run Context Outcome => x.run budget ctx)
    (rounds_eq_loop r p hround before ctx.isGuarded budget s [])
  exact hloop

/-- What follows a first match decides, as a mismatch stays one. -/
theorem behind_first {x : Run Context Outcome} {f g : Outcome → Run Context Outcome}
    (hnoMatch : f .noMatch = g .noMatch)
    (hmatched : ∀ value s, f (.matched value s) = g (.matched value s)) : x >>= f = x >>= g := by
  refine congrArg (x >>= ·) (funext fun outcome => ?_)
  cases outcome with
  | noMatch => exact hnoMatch
  | matched value s => exact hmatched value s

/-- A repetition is its loop, behind the first match where there has to be one. -/
theorem parser_eq (r : Repetition) :
    (r.first? = none → ∀ s, r.parser s = r.start s []) ∧
      ∀ p, r.first? = some p → ∀ s, r.parser s = (do
        match ← p s with
        | .noMatch => return .noMatch
        | .matched value s' => r.start s' [value]) := by
  cases r with
  | many p => exact ⟨fun _ s => (many p).repeated_eq_start p rfl [] s, nofun⟩
  | skipMany p => exact ⟨fun _ s => (skipMany p).repeated_eq_start p rfl [] s, nofun⟩
  | many1 p =>
      refine ⟨nofun, ?_⟩
      rintro _ ⟨⟩ s
      exact behind_first rfl fun value s' => (many1 p).repeated_eq_start p rfl [value] s'
  | skipMany1 p =>
      refine ⟨nofun, ?_⟩
      rintro _ ⟨⟩ s
      exact behind_first rfl fun value s' => (skipMany1 p).repeated_eq_start p rfl [value] s'
  | manyUntil p terminator =>
      refine ⟨fun _ s => ?_, nofun⟩
      ext budget ctx
      have hloop := congrArg (fun x : Run Context Outcome => x.run budget ctx)
        (roundsUntil_eq_loop p terminator ctx.isGuarded budget s [])
      exact hloop
  | sepBy1 p sep =>
      refine ⟨nofun, ?_⟩
      rintro _ ⟨⟩ s
      refine behind_first rfl fun value s' => ?_
      ext budget ctx
      have hloop := congrArg (fun x : Run Context Outcome => x.run budget ctx)
        (roundsSeparated_eq_loop p sep ctx.isGuarded budget s' [value])
      exact hloop

/-- **A repetition ends as its loop does, under the guard that it has read once.** -/
theorem ends_iff {r : Repetition} {budget : Nat} {s : State} {ctx : Context}
    {e : Ending Context Outcome} : r.Ends budget s ctx e ↔ (r.parser s).run budget ctx = e := by
  obtain ⟨hloop, hmandatory⟩ := r.parser_eq
  constructor
  · intro h
    cases h with
    | loop hfirst h => rw [hloop hfirst, run_start, h.eq]
    | first hfirst hp h =>
        rw [hmandatory _ hfirst, Run.run_bind, hp]
        exact h.eq
    | noMatch hfirst hp => rw [hmandatory _ hfirst, Run.run_bind, hp]; rfl
    | raised hfirst hp => rw [hmandatory _ hfirst, Run.run_bind, hp]; rfl
    | unfinished hfirst hp => rw [hmandatory _ hfirst, Run.run_bind, hp]; rfl
  · rintro rfl
    cases hfirst : r.first? with
    | none =>
        rw [hloop hfirst, run_start]
        exact .loop hfirst (r.loops_loop _ _ _ _ _ _)
    | some p =>
        rw [hmandatory p hfirst, Run.run_bind]
        cases hp : (p s).run budget ctx with
        | done outcome ctx' =>
            cases outcome with
            | noMatch => exact .noMatch hfirst hp
            | matched value s' => exact .first hfirst hp (r.loops_loop _ _ _ _ _ _)
        | raised fault ctx' => exact .raised hfirst hp
        | unfinished => exact .unfinished hfirst hp

end Repetition

end PullParse
