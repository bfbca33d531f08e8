import PullParse.Proofs.Position.Combinators
import PullParse.Parser.Repetition

/-!
# Repetitions keep positions in range

Every round of a repetition starts where the round before it has matched, so by
induction on the rounds that are left the last state is on track from the first.
The rounds are cut off in the same place on both sides, by the guard or by the
budget.
-/

namespace PullParse.Parser.KeepsStep

open Run (Agree)

variable {budget : Nat} {p p' q q' : Parser}

/-- A state on track after the rounds, with the values that were collected. -/
def RoundsOnTrack (origin : State) (r : List Value × State) (c : Cache) : Prop :=
  c.OnTrack origin r.2

theorem rounds (name : String) (guard : Bool) (hp : KeepsStep budget p q) (origin : State)
    (left : Nat) : ∀ (s : State) (collected : List Value) (ctx : Context),
      ctx.cache.OnTrack origin s →
      Agree budget ctx (RoundsOnTrack origin) (Parser.rounds name guard p left s collected)
        (Parser.rounds name guard q left s collected) := by
  induction left with
  | zero => exact fun _ _ _ _ => .self .unfinished
  | succ left ih =>
      intro s collected ctx hs
      refine (hp origin s ctx hs).bind ?_
      intro outcome ctx' hgrows hout
      cases outcome with
      | noMatch => exact .pure (hs.grows hgrows)
      | matched value s' =>
          by_cases hstall : stalls guard s s' = true
          · simp only [hstall, if_true]
            exact .raise _
          · simp only [hstall]
            exact ih s' (value :: collected) ctx' hout

theorem roundsUntil (guard : Bool) (hp : KeepsStep budget p q) (hp' : KeepsStep budget p' q')
    (origin : State) (left : Nat) : ∀ (s : State) (collected : List Value) (ctx : Context),
      ctx.cache.OnTrack origin s →
      Agree budget ctx (Outcome.OnTrack origin) (Parser.roundsUntil guard p p' left s collected)
        (Parser.roundsUntil guard q q' left s collected) := by
  induction left with
  | zero => exact fun _ _ _ _ => .self .unfinished
  | succ left ih =>
      intro s collected ctx hs
      refine (hp' origin s ctx hs).bind ?_
      intro last ctx₁ hgrows hlast
      cases last with
      | matched _ s' => exact .pure hlast
      | noMatch =>
          refine (hp origin s ctx₁ (hs.grows hgrows)).bind ?_
          intro outcome ctx₂ _ hout
          cases outcome with
          | noMatch => exact .pure trivial
          | matched value s' =>
              by_cases hstall : stalls guard s s' = true
              · simp only [hstall, if_true]
                exact .raise _
              · simp only [hstall]
                exact ih s' (value :: collected) ctx₂ hout

theorem roundsSeparated (guard : Bool) (hp : KeepsStep budget p q) (hp' : KeepsStep budget p' q')
    (origin : State) (left : Nat) : ∀ (s : State) (collected : List Value) (ctx : Context),
      ctx.cache.OnTrack origin s →
      Agree budget ctx (Outcome.OnTrack origin)
        (Parser.roundsSeparated guard p p' left s collected)
        (Parser.roundsSeparated guard q q' left s collected) := by
  induction left with
  | zero => exact fun _ _ _ _ => .self .unfinished
  | succ left ih =>
      intro s collected ctx hs
      refine (hp' origin s ctx hs).bind ?_
      intro between ctx₁ hgrows hbetween
      have hs₁ := hs.grows hgrows
      cases between with
      | noMatch => exact .pure hs₁
      | matched _ between =>
          refine (hp origin between ctx₁ hbetween).bind ?_
          intro outcome ctx₂ hgrows' hout
          cases outcome with
          | noMatch => exact .pure (hs₁.grows hgrows')
          | matched value s' =>
              by_cases hstall : stalls guard s s' = true
              · simp only [hstall, if_true]
                exact .raise _
              · simp only [hstall]
                exact ih s' (value :: collected) ctx₂ hout

theorem countRounds (hp : KeepsStep budget p q) (origin : State) (left : Nat) :
    ∀ (s : State) (collected : List Value) (ctx : Context), ctx.cache.OnTrack origin s →
      Agree budget ctx (Outcome.OnTrack origin) (Parser.countRounds p left s collected)
        (Parser.countRounds q left s collected) := by
  induction left with
  | zero => exact fun _ _ _ hs => .pure hs
  | succ left ih =>
      intro s collected ctx hs
      refine (hp origin s ctx hs).bind ?_
      intro outcome ctx' _ hout
      cases outcome with
      | noMatch => exact .pure trivial
      | matched value s' => exact ih s' (value :: collected) ctx' hout

/-! ## Whole repetitions -/

/-- What runs under the guard of the settings and the whole budget. -/
theorem guarded {α : Type} {good : α → Cache → Prop} {ctx : Context}
    {f g : Bool → Nat → Run Context α} (h : ∀ guard, Agree budget ctx good (f guard budget)
      (g guard budget)) :
    Agree budget ctx good (Parser.guarded >>= fun guard => Run.withBudget (f guard))
      (Parser.guarded >>= fun guard => Run.withBudget (g guard)) :=
  ⟨(h _).eq, (h _).grown⟩

theorem repeated (name : String) (hp : KeepsStep budget p q) {origin s : State} {ctx : Context}
    (hs : ctx.cache.OnTrack origin s) :
    Agree budget ctx (RoundsOnTrack origin) (Parser.repeated name p s)
      (Parser.repeated name q s) :=
  guarded fun guard => rounds name guard hp origin budget s [] ctx hs

/-- A repetition with some value made of the values of its rounds. -/
theorem repeating (name : String) (f : List Value → Value) (hp : KeepsStep budget p q) :
    KeepsStep budget
      (fun s => do
        let (values, s') ← Parser.repeated name p s
        return .matched (f values) s')
      (fun s => do
        let (values, s') ← Parser.repeated name q s
        return .matched (f values) s') := by
  intro origin s ctx hs
  refine (repeated name hp hs).bind ?_
  intro all ctx' _ hall
  exact .pure hall

/-- A first match that has to be made, and what follows it. -/
theorem mandatory {f g : Value → Parser} (hp : KeepsStep budget p q)
    (hf : ∀ value, KeepsStep budget (f value) (g value)) :
    KeepsStep budget
      (fun s => do
        match ← p s with
        | .noMatch => return .noMatch
        | .matched value s' => f value s')
      (fun s => do
        match ← q s with
        | .noMatch => return .noMatch
        | .matched value s' => g value s') := by
  intro origin s ctx hs
  refine (hp origin s ctx hs).bind ?_
  intro outcome ctx' _ hout
  cases outcome with
  | noMatch => exact .pure trivial
  | matched value s' => exact hf value origin s' ctx' hout

theorem many (hp : KeepsStep budget p q) : KeepsStep budget p.many q.many :=
  repeating "many" .list hp

theorem skipMany (hp : KeepsStep budget p q) : KeepsStep budget p.skipMany q.skipMany :=
  repeating "skip_many" (fun _ => .null) hp

theorem many1 (hp : KeepsStep budget p q) : KeepsStep budget p.many1 q.many1 :=
  mandatory hp fun value => repeating "many1" (fun values => .list (value :: values)) hp

theorem skipMany1 (hp : KeepsStep budget p q) : KeepsStep budget p.skipMany1 q.skipMany1 :=
  mandatory hp fun _ => repeating "skip_many1" (fun _ => .null) hp

theorem manyUntil (hp : KeepsStep budget p q) (hp' : KeepsStep budget p' q') :
    KeepsStep budget (p.manyUntil p') (q.manyUntil q') := by
  intro origin s ctx hs
  exact guarded fun guard => roundsUntil guard hp hp' origin budget s [] ctx hs

theorem sepBy1 (hp : KeepsStep budget p q) (hp' : KeepsStep budget p' q') :
    KeepsStep budget (p.sepBy1 p') (q.sepBy1 q') := by
  refine mandatory hp ?_
  intro value origin s ctx hs
  exact guarded fun guard => roundsSeparated guard hp hp' origin budget s [value] ctx hs

theorem count (n : Int) (hp : KeepsStep budget p q) :
    KeepsStep budget (Parser.count n p) (Parser.count n q) := by
  intro origin s ctx hs
  exact countRounds hp origin n.toNat s [] ctx hs

end PullParse.Parser.KeepsStep
