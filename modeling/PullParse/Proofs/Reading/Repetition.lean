import PullParse.Proofs.Reading.Combinators

/-!
# Repetitions are read as they run

The loops of the parsers collect their values newest first and hand the list on;
those of the readers give back the values of the rounds that are left. Both make
the same rounds, so a whole repetition is read as it runs.
-/

namespace PullParse.Parser.ReadsAs

open Run (Reads)

variable {marks : Marks} {src : Producer} {t : TokenStream} {settings : Settings} {budget : Nat}
variable {p q : Parser} {r k : Reader}

/-- The values collected before come in front, and the state is in range. -/
def Collected (collected : List Value) (a b : List Value × State) (ctx : Context) : Prop :=
  a = (collected.reverse ++ b.1, b.2) ∧ b.2.InRange ctx.cache

/-- A loop that may find nothing: its outcome holds the values collected before and those read. -/
def CollectedOrNone (collected : List Value) (outcome : Outcome)
    (found : Option (List Value × State)) (ctx : Context) : Prop :=
  outcome = .ofValues (found.map fun rest => (collected.reverse ++ rest.1, rest.2)) ∧
    outcome.InRange ctx.cache

theorem rounds (name : String) (guard : Bool) (hp : ReadsAs marks src t settings budget p r)
    (left : Nat) : ∀ (s : State) (collected : List Value) (ctx : Context),
      ctx.Stands src t settings → s.InRange ctx.cache →
      Reads marks src t budget ctx (Collected collected)
        (Parser.rounds name guard p left s collected)
        (Reader.rounds name guard r left s) := by
  induction left with
  | zero => exact fun _ _ _ _ _ => .unfinished
  | succ left ih =>
      intro s collected ctx hctx hs
      refine (hp s ctx hctx hs).bind ?_
      rintro outcome _ ctx' hafter ⟨rfl, hout⟩
      have hctx' := hctx.looked hafter
      cases outcome with
      | noMatch => exact Reads.pure hctx' ⟨by simp, hctx.inRange hafter hs⟩
      | matched value s' =>
          by_cases hstall : stalls guard s s' = true
          · simp only [hstall, if_true]
            exact Reads.raise hctx' _
          · simp only [hstall]
            -- the value collected last stands at the front of the rounds that are left
            have hrest := ih s' (value :: collected) ctx' hctx' hout
            refine hrest.after ?_
            rintro _ rest ctx'' hafter' ⟨rfl, hrange⟩
            exact Reads.pure (hctx'.looked hafter') ⟨by simp, hrange⟩

theorem roundsUntil (guard : Bool) (hp : ReadsAs marks src t settings budget p r)
    (hq : ReadsAs marks src t settings budget q k) (left : Nat) :
    ∀ (s : State) (collected : List Value) (ctx : Context),
      ctx.Stands src t settings → s.InRange ctx.cache →
      Reads marks src t budget ctx (CollectedOrNone collected)
        (Parser.roundsUntil guard p q left s collected) (Reader.roundsUntil guard r k left s) := by
  induction left with
  | zero => exact fun _ _ _ _ _ => .unfinished
  | succ left ih =>
      intro s collected ctx hctx hs
      refine (hq s ctx hctx hs).bind ?_
      rintro last _ ctx₁ hafter₁ ⟨rfl, hlast⟩
      have hctx₁ := hctx.looked hafter₁
      cases last with
      | matched _ s' => exact Reads.pure hctx₁ ⟨by simp [Outcome.ofValues], hlast⟩
      | noMatch =>
          refine (hp s ctx₁ hctx₁ (hctx.inRange hafter₁ hs)).bind ?_
          rintro outcome _ ctx₂ hafter₂ ⟨rfl, hout⟩
          have hctx₂ := hctx₁.looked hafter₂
          cases outcome with
          | noMatch => exact Reads.pure hctx₂ ⟨rfl, trivial⟩
          | matched value s' =>
              by_cases hstall : stalls guard s s' = true
              · simp only [hstall, if_true]
                exact Reads.raise hctx₂ _
              · simp only [hstall]
                have hrest := ih s' (value :: collected) ctx₂ hctx₂ hout
                refine hrest.after ?_
                rintro _ found ctx₃ hafter₃ ⟨rfl, hrange⟩
                have hctx₃ := hctx₂.looked hafter₃
                cases found with
                | none => exact Reads.pure hctx₃ ⟨rfl, trivial⟩
                | some rest => exact Reads.pure hctx₃ ⟨by simp, hrange⟩

/-- What follows a round with a separator, once the separator and the element behind it have been
tried. -/
def afterRound (guard : Bool) (p sep : Parser) (left : Nat) (s : State) (collected : List Value) :
    Outcome → Run Context Outcome
  | .noMatch => return .matched (.list collected.reverse) s
  | .matched value s' =>
    if stalls guard s s' then Run.raise (stall "sep_by1" s)
    else Parser.roundsSeparated guard p sep left s' (value :: collected)

theorem roundsSeparated_succ (guard : Bool) (p sep : Parser) (left : Nat) (s : State)
    (collected : List Value) :
    Parser.roundsSeparated guard p sep (left + 1) s collected =
      sep.andThen p s >>= afterRound guard p sep left s collected := by
  rw [Parser.roundsSeparated, Parser.andThen, bind_assoc]
  congr 1
  funext outcome
  cases outcome with
  | matched _ between => rfl
  | noMatch => rw [pure_bind, afterRound]

/-- Rounds with a separator are rounds of the separator and the element behind it, matched with the
list of their values. -/
theorem roundsSeparated_eq (guard : Bool) (p sep : Parser) (left : Nat) (s : State)
    (collected : List Value) :
    Parser.roundsSeparated guard p sep left s collected = (do
      let (values, s') ← Parser.rounds "sep_by1" guard (sep.andThen p) left s collected
      return .matched (.list values) s') := by
  induction left generalizing s collected with
  | zero => rfl
  | succ left ih =>
      rw [roundsSeparated_succ, Parser.rounds, bind_assoc]
      congr 1
      funext outcome
      cases outcome with
      | noMatch => rfl
      | matched value s' =>
          by_cases hstall : stalls guard s s' = true
          · simp only [afterRound, hstall, if_true]
            rfl
          · simp only [afterRound, hstall]
            exact ih s' (value :: collected)

/-- A round with a separator is a round of the separator and the element behind it. -/
theorem roundsSeparated (guard : Bool) (hp : ReadsAs marks src t settings budget p r)
    (hq : ReadsAs marks src t settings budget q k) (left : Nat) :
    ∀ (s : State) (collected : List Value) (ctx : Context),
      ctx.Stands src t settings → s.InRange ctx.cache →
      Reads marks src t budget ctx
        (fun outcome rest ctx' =>
          outcome = .matched (.list (collected.reverse ++ rest.1)) rest.2 ∧
            rest.2.InRange ctx'.cache)
        (Parser.roundsSeparated guard p q left s collected)
        (Reader.rounds "sep_by1" guard
          (fun s => do
            match ← k s with
            | .matched _ between => r between
            | .noMatch => return .noMatch) left s) := by
  induction left with
  | zero => exact fun _ _ _ _ _ => .unfinished
  | succ left ih =>
      intro s collected ctx hctx hs
      rw [roundsSeparated_succ]
      refine (hq.andThen hp s ctx hctx hs).bind ?_
      rintro outcome _ ctx' hafter ⟨rfl, hout⟩
      have hctx' := hctx.looked hafter
      cases outcome with
      | noMatch => exact Reads.pure hctx' ⟨by simp, hctx.inRange hafter hs⟩
      | matched value s' =>
          by_cases hstall : stalls guard s s' = true
          · simp only [afterRound, hstall, if_true]
            exact Reads.raise hctx' _
          · simp only [afterRound, hstall]
            have hrest := ih s' (value :: collected) ctx' hctx' hout
            refine hrest.after ?_
            rintro _ rest ctx'' hafter' ⟨rfl, hrange⟩
            exact Reads.pure (hctx'.looked hafter') ⟨by simp, hrange⟩

theorem countRounds (hp : ReadsAs marks src t settings budget p r) (left : Nat) :
    ∀ (s : State) (collected : List Value) (ctx : Context),
      ctx.Stands src t settings → s.InRange ctx.cache →
      Reads marks src t budget ctx (CollectedOrNone collected)
        (Parser.countRounds p left s collected) (Reader.times r left s) := by
  induction left with
  | zero => exact fun s collected ctx hctx hs =>
      Reads.pure hctx ⟨by simp [Outcome.ofValues], hs⟩
  | succ left ih =>
      intro s collected ctx hctx hs
      refine (hp s ctx hctx hs).bind ?_
      rintro outcome _ ctx' hafter ⟨rfl, hout⟩
      have hctx' := hctx.looked hafter
      cases outcome with
      | noMatch => exact Reads.pure hctx' ⟨rfl, trivial⟩
      | matched value s' =>
          have hrest := ih s' (value :: collected) ctx' hctx' hout
          refine hrest.after ?_
          rintro _ found ctx'' hafter' ⟨rfl, hrange⟩
          have hctx'' := hctx'.looked hafter'
          cases found with
          | none => exact Reads.pure hctx'' ⟨rfl, trivial⟩
          | some rest => exact Reads.pure hctx'' ⟨by simp, hrange⟩

/-! ## Whole repetitions -/

/-- The rounds of a repetition under the guard of the settings. -/
theorem repeated (name : String) (hp : ReadsAs marks src t settings budget p r) {s : State}
    {ctx : Context} (hctx : ctx.Stands src t settings) (hs : s.InRange ctx.cache) :
    Reads marks src t budget ctx (Collected []) (Parser.repeated name p s)
      (Reader.rounds name settings.guard.truth r budget s) :=
  Reads.guarded hctx (rounds name settings.guard.truth hp budget s [] ctx hctx hs)

/-- A repetition with some value made of the values of its rounds. -/
theorem repeating (name : String) (f : List Value → Value)
    (hp : ReadsAs marks src t settings budget p r) :
    ReadsAs marks src t settings budget
      (fun s => do
        let (values, s') ← Parser.repeated name p s
        return .matched (f values) s')
      (fun s => do
        let all ← Reader.rounds name settings.guard.truth r budget s
        return .matched (f all.1) all.2) := by
  intro s ctx hctx hs
  refine (repeated name hp hctx hs).bind ?_
  rintro _ all ctx' hafter ⟨rfl, hrange⟩
  exact Reads.pure (hctx.looked hafter) ⟨by simp, hrange⟩

/-- A first match that has to be made, and what follows it. -/
theorem mandatory {f : Value → Parser} {g : Value → Reader}
    (hp : ReadsAs marks src t settings budget p r)
    (hf : ∀ value, ReadsAs marks src t settings budget (f value) (g value)) :
    ReadsAs marks src t settings budget
      (fun s => do
        match ← p s with
        | .noMatch => return .noMatch
        | .matched value s' => f value s')
      (fun s => do
        match ← r s with
        | .noMatch => return .noMatch
        | .matched value s' => g value s') := by
  intro s ctx hctx hs
  refine (hp s ctx hctx hs).bind ?_
  rintro outcome _ ctx' hafter ⟨rfl, hout⟩
  have hctx' := hctx.looked hafter
  cases outcome with
  | noMatch => exact Reads.pure hctx' ⟨rfl, trivial⟩
  | matched value s' => exact hf value s' ctx' hctx' hout

theorem many (hp : ReadsAs marks src t settings budget p r) :
    ReadsAs marks src t settings budget p.many fun s => do
      let all ← Reader.rounds "many" settings.guard.truth r budget s
      return .matched (.list all.1) all.2 :=
  repeating "many" .list hp

theorem skipMany (hp : ReadsAs marks src t settings budget p r) :
    ReadsAs marks src t settings budget p.skipMany fun s => do
      let all ← Reader.rounds "skip_many" settings.guard.truth r budget s
      return .matched .null all.2 :=
  repeating "skip_many" (fun _ => .null) hp

theorem many1 (hp : ReadsAs marks src t settings budget p r) :
    ReadsAs marks src t settings budget p.many1 fun s => do
      match ← r s with
      | .noMatch => return .noMatch
      | .matched value s' =>
        let rest ← Reader.rounds "many1" settings.guard.truth r budget s'
        return .matched (.list (value :: rest.1)) rest.2 :=
  mandatory hp fun value => repeating "many1" (fun values => .list (value :: values)) hp

theorem skipMany1 (hp : ReadsAs marks src t settings budget p r) :
    ReadsAs marks src t settings budget p.skipMany1 fun s => do
      match ← r s with
      | .noMatch => return .noMatch
      | .matched _ s' =>
        let rest ← Reader.rounds "skip_many1" settings.guard.truth r budget s'
        return .matched .null rest.2 :=
  mandatory hp fun _ => repeating "skip_many1" (fun _ => .null) hp

/-- A loop whose outcome is that of the values read. -/
theorem ofLoop {x : Run Context Outcome} {y : Reading (Option (List Value × State))}
    {ctx : Context} (hctx : ctx.Stands src t settings)
    (h : Reads marks src t budget ctx (CollectedOrNone []) x y) :
    Reads marks src t budget ctx Outcome.Same x (y >>= fun found => return .ofValues found) := by
  refine h.after ?_
  rintro outcome found ctx' hafter ⟨rfl, hrange⟩
  exact Reads.pure (hctx.looked hafter) ⟨by cases found <;> rfl, hrange⟩

theorem manyUntil (hp : ReadsAs marks src t settings budget p r)
    (hq : ReadsAs marks src t settings budget q k) :
    ReadsAs marks src t settings budget (p.manyUntil q) fun s => do
      let all ← Reader.roundsUntil settings.guard.truth r k budget s
      return .ofValues all := by
  intro s ctx hctx hs
  exact Reads.guarded hctx
    (ofLoop hctx (roundsUntil settings.guard.truth hp hq budget s [] ctx hctx hs))

theorem sepBy1 (hp : ReadsAs marks src t settings budget p r)
    (hq : ReadsAs marks src t settings budget q k) :
    ReadsAs marks src t settings budget (p.sepBy1 q) fun s => do
      match ← r s with
      | .noMatch => return .noMatch
      | .matched value s' =>
        let next : Reader := fun s => do
          match ← k s with
          | .matched _ between => r between
          | .noMatch => return .noMatch
        let rest ← Reader.rounds "sep_by1" settings.guard.truth next budget s'
        return .matched (.list (value :: rest.1)) rest.2 := by
  refine mandatory hp ?_
  intro value s ctx hctx hs
  refine Reads.guarded hctx ?_
  have hloop := roundsSeparated settings.guard.truth hp hq budget s [value] ctx hctx hs
  refine hloop.after ?_
  rintro _ rest ctx' hafter ⟨rfl, hrange⟩
  exact Reads.pure (hctx.looked hafter) ⟨by simp, hrange⟩

theorem count (n : Int) (hp : ReadsAs marks src t settings budget p r) :
    ReadsAs marks src t settings budget (Parser.count n p) fun s => do
      let all ← Reader.times r n.toNat s
      return .ofValues all := by
  intro s ctx hctx hs
  exact ofLoop hctx (countRounds hp n.toNat s [] ctx hctx hs)

end PullParse.Parser.ReadsAs
