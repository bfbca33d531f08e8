import PullParse.Proofs.Progress.Consuming
import PullParse.Proofs.Reading.Repetition

/-!
# Tracks

A track is a parser without user data. It runs on a position alone, and where it
matches it also gives the values that have been put in the place of the user data
on the way there. Only the way that has led to the match counts: what is put while
looking ahead, in an alternative that does not match, or in the round that ends a
repetition is on no path. A parser follows a track if it runs as the track does,
with the user data filled in at the end.
-/

namespace PullParse

/-- A way through the input: where it has led, and the values that have been put in the place of the
user data on it, in order. -/
structure Path where
  position : Int
  puts : List Value

namespace Path

/-- The path that stays where it starts. -/
def start (position : Int) : Path := ⟨position, []⟩

/-- The path behind another one on which these values have been put. -/
def behind (puts : List Value) (path : Path) : Path := { path with puts := puts ++ path.puts }

/-- The state at the end of a path that starts with some user data: the last value put, or that
data if none has been. -/
def state (data : Value) (path : Path) : State := ⟨path.position, path.puts.getLastD data⟩

theorem state_behind (data : Value) (puts : List Value) (path : Path) :
    (path.behind puts).state data = path.state (puts.getLastD data) := by
  simp only [state, behind, List.getLastD_eq_getLast?, List.getLast?_append]
  cases path.puts.getLast? <;> rfl

end Path

/-- An outcome without user data. -/
inductive Finding where
  | matched (value : Value) (path : Path)
  | noMatch

namespace Finding

/-- The outcome of a run that has started with some user data. -/
def outcome (data : Value) : Finding → Outcome
  | .matched value path => .matched value (path.state data)
  | .noMatch => .noMatch

def behind (puts : List Value) : Finding → Finding
  | .matched value path => .matched value (path.behind puts)
  | .noMatch => .noMatch

theorem outcome_behind (data : Value) (puts : List Value) (finding : Finding) :
    (finding.behind puts).outcome data = finding.outcome (puts.getLastD data) := by
  cases finding with
  | matched value path => exact congrArg (Outcome.matched value) (path.state_behind data puts)
  | noMatch => rfl

/-- The event that tells how a traced parser ended. -/
def event (id : Value) : Finding → Event
  | .matched value path => .matched id path.position value
  | .noMatch => .unmatched id

end Finding

abbrev Track : Type := Int → Run Context Finding

namespace Track

/-- The track of a parser that has nothing to do with the user data: the parser without any. -/
def ofParser (p : Parser) : Track := fun k => do
  match ← p ⟨k, .null⟩ with
  | .matched value s => return .matched value (.start s.position)
  | .noMatch => return .noMatch

def put (value : Value) : Track := fun k => return .matched value ⟨k, [value]⟩

/-- Runs `t`, and then the track that its value selects. The path of the second is behind that of
the first. -/
protected def bind (t : Track) (f : Value → Track) : Track := fun k => do
  match ← t k with
  | .matched value path => Finding.behind path.puts <$> f value path.position
  | .noMatch => return .noMatch

def noting (notes : List Value) (t : Track) : Track := fun k => do
  Run.perform ⟨notes, .ok ()⟩
  t k

/-- Looking ahead leaves the path that it takes. -/
def lookahead (t : Track) : Track := fun k => do
  match ← t k with
  | .matched value _ => return .matched value (.start k)
  | .noMatch => return .noMatch

def notFollowedBy (t : Track) : Track := fun k => do
  match ← t k with
  | .matched _ _ => return .noMatch
  | .noMatch => return .matched .null (.start k)

/-- Where the first alternative does not match, the path is that of the second alone. -/
def either (t u : Track) : Track := fun k => do
  match ← t k with
  | .matched value path => return .matched value path
  | .noMatch => u k

def traced (id : Value) (t : Track) : Track := fun k => do
  Run.write (.enter id k)
  match ← (t k).attempt fun _ => true with
  | .ok finding =>
    Run.write (finding.event id)
    return finding
  | .error fault =>
    Run.write (.raised id fault)
    Run.raise fault

/-! ## Repetitions -/

/-- The rounds of a repetition from the end of a path on. Every round that matches prolongs the
path, and the round that does not match leaves it. -/
def rounds (name : String) (guard : Bool) (t : Track) :
    Nat → Path → List Value → Run Context (List Value × Path)
  | 0, _, _ => Run.unfinished
  | left + 1, path, collected => do
    match ← t path.position with
    | .noMatch => return (collected.reverse, path)
    | .matched value next =>
      if guard && next.position == path.position then
        Run.raise (.stalled (.str name) (.int path.position))
      else rounds name guard t left (next.behind path.puts) (value :: collected)

/-- A repetition with some value made of the values of its rounds, and of those collected before,
which are kept newest first. -/
def repeating (name : String) (collected : List Value) (f : List Value → Value) (t : Track) :
    Track := fun k => do
  let guard ← Parser.guarded
  let all ← Run.withBudget fun budget => rounds name guard t budget (.start k) collected
  return .matched (f all.1) all.2

/-- The rounds up to a terminator. A terminator that does not match leaves the path, and so does the
round behind it if that does not match either. -/
def roundsUntil (guard : Bool) (t terminator : Track) :
    Nat → Path → List Value → Run Context Finding
  | 0, _, _ => Run.unfinished
  | left + 1, path, collected => do
    match ← terminator path.position with
    | .matched _ last => return .matched (.list collected.reverse) (last.behind path.puts)
    | .noMatch =>
      match ← t path.position with
      | .noMatch => return .noMatch
      | .matched value next =>
        if guard && next.position == path.position then
          Run.raise (.stalled (.str "many_until") (.int path.position))
        else roundsUntil guard t terminator left (next.behind path.puts) (value :: collected)

def manyUntil (t terminator : Track) : Track := fun k => do
  let guard ← Parser.guarded
  Run.withBudget fun budget => roundsUntil guard t terminator budget (.start k) []

def countRounds (t : Track) : Nat → Path → List Value → Run Context Finding
  | 0, path, collected => return .matched (.list collected.reverse) path
  | left + 1, path, collected => do
    match ← t path.position with
    | .noMatch => return .noMatch
    | .matched value next => countRounds t left (next.behind path.puts) (value :: collected)

def count (n : Int) (t : Track) : Track := fun k => countRounds t n.toNat (.start k) []

end Track

/-! ## Parsers that follow tracks -/

/-- The parser runs as the track does, whatever user data it starts with. -/
def Parser.Follows (p : Parser) (t : Track) : Prop :=
  ∀ k data, p ⟨k, data⟩ = Finding.outcome data <$> t k

namespace Parser.Follows

variable {p q : Parser} {t u : Track}

/-- At the end of a path the parser goes on as the track does from where the path has led. -/
theorem at_path (hp : p.Follows t) (data : Value) (path : Path) :
    p (path.state data) = Finding.outcome (path.puts.getLastD data) <$> t path.position :=
  hp path.position _

/-! ### Parsers without parts -/

/-- A parser that matches in place, whatever runs before, follows its track. -/
theorem ofParser_inPlace {α : Type} (x : Int → Run Context α) (value : Int → α → Value) :
    Follows (fun s => x s.position >>= fun a => return .matched (value s.position a) s)
      (.ofParser fun s => x s.position >>= fun a => return .matched (value s.position a) s) := by
  intro k data
  simp only [Track.ofParser, bind_assoc, map_bind, pure_bind, map_pure]
  rfl

theorem ofParser_raising (fault : Int → Fault) :
    Follows (fun s => Run.raise (fault s.position))
      (.ofParser fun s => Run.raise (fault s.position)) := fun _ _ => rfl

theorem ofParser_satisfy (test : Value → Action Bool) :
    Follows (.satisfy test) (.ofParser (.satisfy test)) := by
  intro k data
  simp only [Track.ofParser, Parser.satisfy, Parser.current, Parser.advance, bind_assoc, map_bind]
  refine bind_congr fun token => bind_congr fun passes => ?_
  cases passes with
  | false => rfl
  | true =>
      simp only [if_true, bind_assoc, pure_bind, map_pure]
      refine bind_congr fun again => ?_
      cases again.isEof with
      | true => rfl
      | false => rfl

theorem put (value : Value) : Follows (.putUserData value) (.put value) := fun _ _ => rfl

/-! ### Chaining and choosing -/

theorem bind {f : Value → Parser} {g : Value → Track} (hp : p.Follows t)
    (hf : ∀ value, (f value).Follows (g value)) : (p.bind f).Follows (t.bind g) := by
  intro k data
  simp only [Parser.bind, Track.bind, hp k data, bind_map_left, map_bind]
  refine bind_congr fun finding => ?_
  cases finding with
  | matched value path =>
      show f value (path.state data) =
        Finding.outcome data <$> Finding.behind path.puts <$> g value path.position
      rw [(hf value).at_path, Functor.map_map]
      exact congrArg (· <$> g value path.position)
        (funext fun finding => (finding.outcome_behind data path.puts).symm)
  | noMatch => rfl

theorem noting (notes : List Value) (hp : p.Follows t) :
    (Parser.noting notes p).Follows (t.noting notes) := by
  intro k data
  simp only [Parser.noting, Track.noting, hp k data, map_bind]

theorem lookahead (hp : p.Follows t) : p.lookahead.Follows t.lookahead := by
  intro k data
  simp only [Parser.lookahead, Track.lookahead, hp k data, bind_map_left, map_bind]
  refine bind_congr fun finding => ?_
  cases finding with
  | matched value path => rfl
  | noMatch => rfl

theorem notFollowedBy (hp : p.Follows t) : p.notFollowedBy.Follows t.notFollowedBy := by
  intro k data
  simp only [Parser.notFollowedBy, Track.notFollowedBy, hp k data, bind_map_left, map_bind]
  refine bind_congr fun finding => ?_
  cases finding with
  | matched value path => rfl
  | noMatch => rfl

theorem either (hp : p.Follows t) (hq : q.Follows u) : (p.either q).Follows (t.either u) := by
  intro k data
  simp only [Parser.either, Track.either, hp k data, bind_map_left, map_bind]
  refine bind_congr fun finding => ?_
  cases finding with
  | matched value path => rfl
  | noMatch => exact hq k data

/-- The marks around a parser tell nothing of the user data. -/
theorem traced (id : Value) (hp : p.Follows t) : (p.traced id).Follows (t.traced id) := by
  intro k data
  simp only [Parser.traced, Track.traced, hp k data, Run.attempt_map, bind_map_left, map_bind]
  refine bind_congr fun _ => bind_congr fun result => ?_
  cases result with
  | ok finding =>
      cases finding with
      | matched value path => rfl
      | noMatch => rfl
  | error fault => rfl

/-! ### Repetitions -/

/-- Both repetitions are broken off in a round, or neither is. -/
theorem unlessStalled {α β : Type} {f : β → α} (name : String) (guard : Bool) (data : Value)
    (path next : Path) {x : Run Context α} {y : Run Context β} (h : x = f <$> y) :
    (if stalls guard (path.state data) (next.state (path.puts.getLastD data)) then
        Run.raise (stall name (path.state data)) else x) =
      f <$> if guard && next.position == path.position then
        Run.raise (.stalled (.str name) (.int path.position)) else y := by
  have hstalls : stalls guard (path.state data) (next.state (path.puts.getLastD data)) =
      (guard && next.position == path.position) := rfl
  rw [hstalls]
  split
  · rfl
  · exact h

theorem rounds (name : String) (guard : Bool) (hp : p.Follows t) (data : Value) (left : Nat)
    (path : Path) (collected : List Value) :
    Parser.rounds name guard p left (path.state data) collected =
      (fun all => (all.1, all.2.state data)) <$> t.rounds name guard left path collected := by
  induction left generalizing path collected with
  | zero => rfl
  | succ left ih =>
      simp only [Parser.rounds, Track.rounds, hp.at_path, bind_map_left, map_bind]
      refine bind_congr fun finding => ?_
      cases finding with
      | noMatch => rfl
      | matched value next =>
          apply unlessStalled name guard data path next
          rw [← Path.state_behind]
          exact ih (next.behind path.puts) (value :: collected)

theorem roundsUntil (guard : Bool) (hp : p.Follows t) (hq : q.Follows u) (data : Value)
    (left : Nat) (path : Path) (collected : List Value) :
    Parser.roundsUntil guard p q left (path.state data) collected =
      Finding.outcome data <$> t.roundsUntil guard u left path collected := by
  induction left generalizing path collected with
  | zero => rfl
  | succ left ih =>
      simp only [Parser.roundsUntil, Track.roundsUntil, hp.at_path, hq.at_path, bind_map_left,
        map_bind]
      refine bind_congr fun finding => ?_
      cases finding with
      | matched value last =>
          show Pure.pure (Outcome.matched _ (last.state (path.puts.getLastD data))) = _
          rw [← Path.state_behind]
          rfl
      | noMatch =>
          simp only [Finding.outcome, map_bind]
          refine bind_congr fun finding => ?_
          cases finding with
          | noMatch => rfl
          | matched value next =>
              apply unlessStalled "many_until" guard data path next
              rw [← Path.state_behind]
              exact ih (next.behind path.puts) (value :: collected)

theorem countRounds (hp : p.Follows t) (data : Value) (left : Nat) (path : Path)
    (collected : List Value) :
    Parser.countRounds p left (path.state data) collected =
      Finding.outcome data <$> t.countRounds left path collected := by
  induction left generalizing path collected with
  | zero => rfl
  | succ left ih =>
      simp only [Parser.countRounds, Track.countRounds, hp.at_path, bind_map_left, map_bind]
      refine bind_congr fun finding => ?_
      cases finding with
      | noMatch => rfl
      | matched value next =>
          show Parser.countRounds p left (next.state (path.puts.getLastD data)) _ = _
          rw [← Path.state_behind]
          exact ih (next.behind path.puts) (value :: collected)

theorem repeating (name : String) (collected : List Value) (f : List Value → Value)
    (hp : p.Follows t) :
    Follows
      (fun s => do
        let guard ← guarded
        let all ← Run.withBudget fun budget => Parser.rounds name guard p budget s collected
        return .matched (f all.1) all.2)
      (t.repeating name collected f) := by
  intro k data
  simp only [Track.repeating, map_bind, map_pure]
  refine bind_congr fun guard => ?_
  have hrounds : Run.withBudget
        (fun budget => Parser.rounds name guard p budget ⟨k, data⟩ collected) =
      (fun all => (all.1, all.2.state data)) <$>
        Run.withBudget fun budget => t.rounds name guard budget (.start k) collected :=
    Run.withBudget_map fun budget => hp.rounds name guard data budget (.start k) collected
  rw [hrounds, bind_map_left]
  rfl

theorem many (hp : p.Follows t) : p.many.Follows (t.repeating "many" [] .list) :=
  hp.repeating "many" [] .list

theorem skipMany (hp : p.Follows t) :
    p.skipMany.Follows (t.repeating "skip_many" [] fun _ => .null) :=
  hp.repeating "skip_many" [] fun _ => .null

theorem many1 (hp : p.Follows t) :
    p.many1.Follows
      (t.bind fun value => t.repeating "many1" [] fun values => .list (value :: values)) := by
  have hbind := hp.bind fun value => hp.repeating "many1" [] fun values => .list (value :: values)
  rw [← mandatory_eq_bind] at hbind
  exact hbind

theorem skipMany1 (hp : p.Follows t) :
    p.skipMany1.Follows (t.bind fun _ => t.repeating "skip_many1" [] fun _ => .null) := by
  have hbind := hp.bind fun _ => hp.repeating "skip_many1" [] fun _ => .null
  rw [← mandatory_eq_bind] at hbind
  exact hbind

theorem manyUntil (hp : p.Follows t) (hq : q.Follows u) :
    (p.manyUntil q).Follows (t.manyUntil u) := by
  intro k data
  simp only [Parser.manyUntil, Track.manyUntil, map_bind]
  exact bind_congr fun guard => Run.withBudget_map fun budget =>
    hp.roundsUntil guard hq data budget (.start k) []

/-- A round of a repetition with separators is a separator and a match behind it. -/
theorem sepBy1 (hp : p.Follows t) (hq : q.Follows u) :
    (p.sepBy1 q).Follows
      (t.bind fun value => (u.bind fun _ => t).repeating "sep_by1" [value] .list) := by
  have hbind := hp.bind fun value =>
    (hq.bind fun _ => hp).repeating "sep_by1" [value] .list
  rw [← mandatory_eq_bind] at hbind
  intro k data
  rw [← hbind]
  unfold Parser.sepBy1
  refine bind_congr fun outcome => ?_
  cases outcome with
  | noMatch => rfl
  | matched value s =>
      refine bind_congr fun guard => ?_
      simp only [ReadsAs.roundsSeparated_eq]
      rfl

theorem count (n : Int) (hp : p.Follows t) : (Parser.count n p).Follows (.count n t) :=
  fun k data => hp.countRounds data n.toNat (.start k) []

end Parser.Follows

end PullParse
