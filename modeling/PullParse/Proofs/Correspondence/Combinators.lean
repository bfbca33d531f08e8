import PullParse.Proofs.Correspondence.Basic
import PullParse.Proofs.Reading.Repetition

/-!
# Combinators keep runs in correspondence

Two parsers correspond if their runs do from every pair of states that belong
together. A combinator of parsers that correspond to others corresponds to the
combinator of the others, whatever it is that belongs together, and the loops do
so by induction on the rounds that are left.
-/

namespace PullParse

/-- Both match with the same value, in states that belong together, or neither matches. -/
inductive Outcome.Both (states : State → State → Prop) : Outcome → Outcome → Prop
  | matched (value : Value) {s s' : State} (h : states s s') :
      Both states (.matched value s) (.matched value s')
  | noMatch : Both states .noMatch .noMatch

/-- From states that belong together the runs of the two parsers correspond. -/
def Parser.Corresponds (C : Correspondence) (budget : Nat) (p q : Parser) : Prop :=
  ∀ s s', C.states s s' → Run.Corresponds C budget (Outcome.Both C.states) (p s) (q s')

namespace Parser.Corresponds

variable {C : Correspondence} {budget : Nat} {p p' q q' : Parser}

/-! ## Chaining and choosing -/

theorem bind {f g : Value → Parser} (hp : Corresponds C budget p q)
    (hf : ∀ value, Corresponds C budget (f value) (g value)) :
    Corresponds C budget (p.bind f) (q.bind g) := by
  intro s s' hs
  apply (hp s s' hs).bind
  rintro _ _ (⟨value, hstates⟩ | _)
  · exact hf value _ _ hstates
  · exact .pure .noMatch

theorem andThen (hp : Corresponds C budget p q) (hp' : Corresponds C budget p' q') :
    Corresponds C budget (p.andThen p') (q.andThen q') := bind hp fun _ => hp'

theorem lookahead (hp : Corresponds C budget p q) :
    Corresponds C budget p.lookahead q.lookahead := by
  intro s s' hs
  apply (hp s s' hs).bind
  rintro _ _ (⟨value, -⟩ | _)
  · exact .pure (.matched value hs)
  · exact .pure .noMatch

theorem notFollowedBy (hp : Corresponds C budget p q) :
    Corresponds C budget p.notFollowedBy q.notFollowedBy := by
  intro s s' hs
  apply (hp s s' hs).bind
  rintro _ _ (_ | _)
  · exact .pure .noMatch
  · exact .pure (.matched .null hs)

theorem either (hp : Corresponds C budget p q) (hp' : Corresponds C budget p' q') :
    Corresponds C budget (p.either p') (q.either q') := by
  intro s s' hs
  apply (hp s s' hs).bind
  rintro _ _ (⟨value, hstates⟩ | _)
  · exact .pure (.matched value hstates)
  · exact hp' s s' hs

theorem noting {notes : List Value}
    (hperform : Run.Corresponds C budget (fun _ _ => True) (Run.perform ⟨notes, .ok ()⟩)
      (Run.perform ⟨notes, .ok ()⟩))
    (hp : Corresponds C budget p q) :
    Corresponds C budget (Parser.noting notes p) (Parser.noting notes q) := by
  intro s s' hs
  apply hperform.bind
  intro _ _ _
  exact hp s s' hs

/-! ## Rounds -/

/-- The same values, and states that belong together. -/
def SameRounds (states : State → State → Prop) (a b : List Value × State) : Prop :=
  a.1 = b.1 ∧ states a.2 b.2

/-- Both repetitions are broken off in a round, or neither is. -/
theorem unlessStalled {α β : Type} {same : α → β → Prop} (name : String) (guard : Bool)
    {s s' t t' : State} (hs : C.states s s') (ht : C.states t t') {x : Run Context α}
    {y : Run Context β} (h : Run.Corresponds C budget same x y) :
    Run.Corresponds C budget same
      (if stalls guard s t then Run.raise (stall name s) else x)
      (if stalls guard s' t' then Run.raise (stall name s') else y) := by
  have hstalls : stalls guard s' t' = stalls guard s t := by
    rw [stalls, stalls, C.position_eq hs, C.position_eq ht]
  rw [hstalls]
  split
  · exact .stall name hs
  · exact h

theorem rounds (name : String) (guard : Bool) (hp : Corresponds C budget p q) (left : Nat) :
    ∀ (s s' : State) (collected : List Value), C.states s s' →
      Run.Corresponds C budget (SameRounds C.states)
        (Parser.rounds name guard p left s collected)
        (Parser.rounds name guard q left s' collected) := by
  induction left with
  | zero => exact fun _ _ _ _ => .unfinished
  | succ left ih =>
      intro s s' collected hs
      apply (hp s s' hs).bind
      rintro _ _ (⟨value, hstates⟩ | _)
      · exact unlessStalled name guard hs hstates (ih _ _ _ hstates)
      · exact .pure ⟨rfl, hs⟩

theorem roundsUntil (guard : Bool) (hp : Corresponds C budget p q)
    (hp' : Corresponds C budget p' q') (left : Nat) :
    ∀ (s s' : State) (collected : List Value), C.states s s' →
      Run.Corresponds C budget (Outcome.Both C.states)
        (Parser.roundsUntil guard p p' left s collected)
        (Parser.roundsUntil guard q q' left s' collected) := by
  induction left with
  | zero => exact fun _ _ _ _ => .unfinished
  | succ left ih =>
      intro s s' collected hs
      apply (hp' s s' hs).bind
      rintro _ _ (⟨_, hlast⟩ | _)
      · exact .pure (.matched _ hlast)
      · apply (hp s s' hs).bind
        rintro _ _ (⟨value, hstates⟩ | _)
        · exact unlessStalled "many_until" guard hs hstates (ih _ _ _ hstates)
        · exact .pure .noMatch

theorem roundsSeparated (guard : Bool) (hp : Corresponds C budget p q)
    (hp' : Corresponds C budget p' q') (left : Nat) {s s' : State} (collected : List Value)
    (hs : C.states s s') :
    Run.Corresponds C budget (Outcome.Both C.states)
      (Parser.roundsSeparated guard p p' left s collected)
      (Parser.roundsSeparated guard q q' left s' collected) := by
  rw [ReadsAs.roundsSeparated_eq, ReadsAs.roundsSeparated_eq]
  apply (rounds "sep_by1" guard (hp'.andThen hp) left s s' collected hs).bind
  rintro ⟨values, _⟩ ⟨_, _⟩ ⟨rfl, hstates⟩
  exact .pure (.matched (.list values) hstates)

theorem countRounds (hp : Corresponds C budget p q) (left : Nat) :
    ∀ (s s' : State) (collected : List Value), C.states s s' →
      Run.Corresponds C budget (Outcome.Both C.states) (Parser.countRounds p left s collected)
        (Parser.countRounds q left s' collected) := by
  induction left with
  | zero => exact fun _ _ _ hs => .pure (.matched _ hs)
  | succ left ih =>
      intro s s' collected hs
      apply (hp s s' hs).bind
      rintro _ _ (⟨value, hstates⟩ | _)
      · exact ih _ _ _ hstates
      · exact .pure .noMatch

/-! ## Whole repetitions -/

/-- A repetition with some value made of the values of its rounds. -/
theorem repeating (name : String) (f : List Value → Value) (hp : Corresponds C budget p q) :
    Corresponds C budget
      (fun s => do
        let (values, s') ← Parser.repeated name p s
        return .matched (f values) s')
      (fun s => do
        let (values, s') ← Parser.repeated name q s
        return .matched (f values) s') := by
  intro s s' hs
  have hrounds : Run.Corresponds C budget (SameRounds C.states) (Parser.repeated name p s)
      (Parser.repeated name q s') :=
    .guarded fun guard => .withBudget (rounds name guard hp budget s s' [] hs)
  apply hrounds.bind
  rintro ⟨values, _⟩ ⟨_, _⟩ ⟨rfl, hstates⟩
  exact .pure (.matched (f values) hstates)

/-- A first match that has to be made, and what follows it. -/
theorem mandatory {f g : Value → Parser} (hp : Corresponds C budget p q)
    (hf : ∀ value, Corresponds C budget (f value) (g value)) :
    Corresponds C budget
      (fun s => do
        match ← p s with
        | .noMatch => return .noMatch
        | .matched value s' => f value s')
      (fun s => do
        match ← q s with
        | .noMatch => return .noMatch
        | .matched value s' => g value s') := by
  intro s s' hs
  apply (hp s s' hs).bind
  rintro _ _ (⟨value, hstates⟩ | _)
  · exact hf value _ _ hstates
  · exact .pure .noMatch

theorem many (hp : Corresponds C budget p q) : Corresponds C budget p.many q.many :=
  repeating "many" .list hp

theorem skipMany (hp : Corresponds C budget p q) : Corresponds C budget p.skipMany q.skipMany :=
  repeating "skip_many" (fun _ => .null) hp

theorem many1 (hp : Corresponds C budget p q) : Corresponds C budget p.many1 q.many1 :=
  mandatory hp fun value => repeating "many1" (fun values => .list (value :: values)) hp

theorem skipMany1 (hp : Corresponds C budget p q) :
    Corresponds C budget p.skipMany1 q.skipMany1 :=
  mandatory hp fun _ => repeating "skip_many1" (fun _ => .null) hp

theorem manyUntil (hp : Corresponds C budget p q) (hp' : Corresponds C budget p' q') :
    Corresponds C budget (p.manyUntil p') (q.manyUntil q') := by
  intro s s' hs
  exact .guarded fun guard => .withBudget (roundsUntil guard hp hp' budget s s' [] hs)

theorem sepBy1 (hp : Corresponds C budget p q) (hp' : Corresponds C budget p' q') :
    Corresponds C budget (p.sepBy1 p') (q.sepBy1 q') := by
  apply mandatory hp
  intro value s s' hs
  exact .guarded fun guard => .withBudget (roundsSeparated guard hp hp' budget [value] hs)

theorem count (n : Int) (hp : Corresponds C budget p q) :
    Corresponds C budget (Parser.count n p) (Parser.count n q) := by
  intro s s' hs
  exact countRounds hp n.toNat s s' [] hs

/-! ## Marks -/

/-- Marks around both parsers leave the runs in correspondence where contexts with the same event
more still belong together. -/
theorem traced (id : Value) (hp : Corresponds C budget p q)
    (hwrite : ∀ {ctx ctx'}, C.contexts ctx ctx' → ∀ event,
      C.contexts (ctx.mapSession fun s => s.write event) (ctx'.mapSession fun s => s.write event))
    (hbroken : ∀ {fault ctx ctx'}, C.broken fault ctx ctx' → ∀ event,
      C.broken fault (ctx.mapSession fun s => s.write event)
        (ctx'.mapSession fun s => s.write event)) :
    Corresponds C budget (p.traced id) (q.traced id) := by
  intro s s' hs ctx ctx' hctx
  have hends := hp s s' hs _ _ (hwrite hctx (.enter id s.position))
  simp only [Parser.traced, Run.run_bind, Run.write, Run.modify, Run.attempt, Ending.andThen,
    if_true, C.position_eq hs]
  generalize (p s).run budget _ = e, (q s').run budget _ = e' at hends ⊢
  cases hends with
  | done hctx' hboth =>
      cases hboth with
      | @matched value s₁ s₂ hstates =>
          refine .done ?_ (.matched value hstates)
          have hevent : Outcome.event id (.matched value s₂) = .matched id s₁.position value := by
            rw [Outcome.event, C.position_eq hstates]
          rw [hevent]
          exact hwrite hctx' _
      | noMatch => exact .done (hwrite hctx' _) .noMatch
  | raised hleft => exact .raised (hbroken hleft _)
  | excused hlenient => exact .excused hlenient
  | unfinished => exact .unfinished

end Parser.Corresponds

/-! ## Equal runs -/

/-- The runs end in the same way in the same context. -/
def Correspondence.identical : Correspondence :=
  .ofContexts (fun ctx ctx' => ctx' = ctx) (fun _ ctx ctx' => ctx' = ctx) False
    (fun h => by rw [h]) fun h _ => h

/-- Parsers whose runs are equal correspond in every way that runs can be equal, so combinators of
them have equal runs. -/
theorem Parser.corresponds_identical_iff {budget : Nat} {p q : Parser} :
    Parser.Corresponds .identical budget p q ↔
      ∀ s ctx, (p s).run budget ctx = (q s).run budget ctx := by
  constructor
  · intro h s ctx
    have hends := h s s rfl ctx ctx rfl
    generalize (p s).run budget ctx = e, (q s).run budget ctx = e' at hends
    cases hends with
    | done hctx hboth =>
        obtain rfl := hctx
        cases hboth with
        | matched value hs =>
            obtain rfl := hs
            rfl
        | noMatch => rfl
    | raised hctx =>
        obtain rfl := hctx
        rfl
    | excused hlenient => exact hlenient.elim
    | unfinished => rfl
  · rintro h s s' rfl ctx ctx' hctx
    obtain rfl := hctx
    rw [h]
    generalize (q s).run budget ctx' = e
    cases e with
    | done outcome _ =>
        cases outcome with
        | matched value s' => exact .done rfl (.matched value rfl)
        | noMatch => exact .done rfl .noMatch
    | raised fault _ => exact .raised rfl
    | unfinished => exact .unfinished

end PullParse
