import PullParse.Proofs.Reading.Grammar
import PullParse.Proofs.Window.Basic

/-!
# Combinators see their windows

A reader follows another one if from every state its reading does, with the
state moved. Combinators and loops of readers that follow others follow the
combinators and loops of the others: each part starts at the start of the whole,
or where a part before it has ended.
-/

namespace PullParse

/-- From every state, and the moved state, the readings follow each other. -/
def Reader.Follows (D : Displacement) (r r' : Reader) : Prop :=
  ∀ s, Reading.Follows D s.position (r s) (r' (s.moved D.distance))

/-! ## Matches in place -/

namespace Reading.Follows

variable {D : Displacement} {start : Int}

theorem matched (value : Value) (s : State) :
    Follows D s.position (Pure.pure (Outcome.matched value s))
      (Pure.pure (Outcome.matched value (s.moved D.distance))) := by
  apply Follows.pure (Outcome.matched value s)
  rintro p ⟨⟩
  rfl

theorem noMatch :
    Follows D start (Pure.pure Outcome.noMatch) (Pure.pure Outcome.noMatch) := by
  apply Follows.pure Outcome.noMatch
  rintro p ⟨⟩

/-- The values of rounds, and the state behind them. -/
theorem values (values : List Value) (s : State) :
    Follows D s.position (Pure.pure (values, s)) (Pure.pure (values, s.moved D.distance)) := by
  apply Follows.pure (values, s)
  rintro p ⟨⟩
  rfl

/-- Values that have been collected, and the state behind them. -/
theorem collected (values : List Value) (s : State) :
    Follows D s.position (Pure.pure (some (values, s)))
      (Pure.pure (some (values, s.moved D.distance))) := by
  apply Follows.pure (some (values, s))
  rintro p ⟨⟩
  rfl

/-- What follows a match starts at its state, or at the state before. -/
theorem bind_outcome {β : Type} [Placed β] {x y : Reading Outcome} (h : Follows D start x y)
    {f g : Outcome → Reading β}
    (hmatched : ∀ value s, ∃ p, (p = start ∨ p = s.position) ∧
      Follows D p (f (.matched value s)) (g (.matched value (s.moved D.distance))))
    (hnoMatch : Follows D start (f .noMatch) (g .noMatch)) :
    Follows D start (x >>= f) (y >>= g) := by
  apply h.bind
  intro outcome _
  cases outcome with
  | matched value s =>
      obtain ⟨p, hp, hfollows⟩ := hmatched value s
      exact ⟨p, hp.imp_right fun h => by rw [h]; rfl, hfollows⟩
  | noMatch => exact ⟨start, .inl rfl, hnoMatch⟩

end Reading.Follows

namespace Reader.Follows

variable {D : Displacement} {r r' q q' : Reader}

/-! ## Single tokens -/

/-- The state behind a token; the end token is never passed. -/
def past (token : Token) (s : State) : State :=
  if token.isEof then s else { s with position := s.position + 1 }

theorem position_past (token : Token) (s : State) :
    (past token s).position = s.position ∨ (past token s).position = s.position + 1 := by
  unfold past
  split
  · exact .inl rfl
  · exact .inr rfl

theorem past_moved (token : Token) (d : Int) (s : State) :
    past token (s.moved d) = (past token s).moved d := by
  unfold past
  split
  · rfl
  · simp only [State.moved, add_right_comm]

/-- What a test of a token makes of it. -/
def tested (test : Value → Action Bool) (token : Token) (s : State) : Except Fault Outcome :=
  (test token.cls).result.map fun passes =>
    if passes then .matched token.value (past token s) else .noMatch

theorem read_satisfy (test : Value → Action Bool) (t : TokenStream) (settings : Settings)
    (budget : Nat) (rule : String → List Value → Reader) (s : State) :
    (Grammar.satisfy test).read t settings budget rule s =
      ⟨some (tested test (t s.position.toNat) s), [s.position]⟩ := by
  have hlook : (Reading.look t s.position).result = some (.ok (t s.position.toNat)) := rfl
  show Reading.look t s.position >>= _ = _
  rw [Reading.bind_of_ok hlook, tested]
  cases (test (t s.position.toNat).cls).result with
  | error fault => rfl
  | ok passes => cases passes <;> rfl

theorem satisfy {test : Value → Action Bool}
    (htest : ∀ cls fault, (test cls).result = .error fault → D.foreign fault ∨ fault.Unplaced)
    (settings : Settings) (budget : Nat) (rule rule' : String → List Value → Reader) :
    Reader.Follows D ((Grammar.satisfy test).read D.stream settings budget rule)
      ((Grammar.satisfy test).read D.other settings budget rule') := by
  intro s
  rw [read_satisfy, read_satisfy]
  refine .seeing ?_ fun hagrees => ?_
  · rintro outcome p hresult hp
    rw [tested] at hresult
    cases htested : (test (D.stream s.position.toNat).cls).result with
    | error fault =>
        rw [htested] at hresult
        cases hresult
    | ok passes =>
        rw [htested] at hresult
        cases passes with
        | false =>
            cases hresult
            cases hp
        | true =>
            cases hresult
            cases hp
            exact position_past _ s
  · show Moved D.foreign D.distance _
      (some (tested test (D.other (s.position + D.distance).toNat) (s.moved D.distance)))
    rw [hagrees, tested, tested]
    cases htested : (test (D.stream s.position.toNat).cls).result with
    | error fault => exact .unmoved (htest _ _ htested)
    | ok passes =>
        cases passes with
        | false => exact .ok Outcome.noMatch
        | true =>
            rw [past_moved]
            exact .ok (Outcome.matched _ (past _ s))

/-! ## Chaining and choosing -/

theorem chain {f g : Value → Reader} (hr : Reader.Follows D r r')
    (hf : ∀ value, Reader.Follows D (f value) (g value)) :
    Reader.Follows D
      (fun s => do
        match ← r s with
        | .matched value s' => f value s'
        | .noMatch => return .noMatch)
      (fun s => do
        match ← r' s with
        | .matched value s' => g value s'
        | .noMatch => return .noMatch) := by
  intro s
  apply (hr s).bind_outcome
  · intro value s'
    exact ⟨s'.position, .inr rfl, hf value s'⟩
  · exact .noMatch

theorem lookahead (hr : Reader.Follows D r r') :
    Reader.Follows D
      (fun s => do
        match ← r s with
        | .matched value _ => return .matched value s
        | .noMatch => return .noMatch)
      (fun s => do
        match ← r' s with
        | .matched value _ => return .matched value s
        | .noMatch => return .noMatch) := by
  intro s
  apply (hr s).bind_outcome
  · intro value s'
    exact ⟨s.position, .inl rfl, .matched value s⟩
  · exact .noMatch

theorem notFollowedBy (hr : Reader.Follows D r r') :
    Reader.Follows D
      (fun s => do
        match ← r s with
        | .matched _ _ => return .noMatch
        | .noMatch => return .matched .null s)
      (fun s => do
        match ← r' s with
        | .matched _ _ => return .noMatch
        | .noMatch => return .matched .null s) := by
  intro s
  apply (hr s).bind_outcome
  · intro value s'
    exact ⟨s.position, .inl rfl, .noMatch⟩
  · exact .matched .null s

theorem either (hr : Reader.Follows D r r') (hq : Reader.Follows D q q') :
    Reader.Follows D
      (fun s => do
        match ← r s with
        | .matched value s' => return .matched value s'
        | .noMatch => q s)
      (fun s => do
        match ← r' s with
        | .matched value s' => return .matched value s'
        | .noMatch => q' s) := by
  intro s
  apply (hr s).bind_outcome
  · intro value s'
    exact ⟨s'.position, .inr rfl, .matched value s'⟩
  · exact hq s

/-! ## Rounds -/

theorem stalls_moved (guard : Bool) (d : Int) (s s' : State) :
    Parser.stalls guard (s.moved d) (s'.moved d) = Parser.stalls guard s s' := by
  have hiff : s'.position + d = s.position + d ↔ s'.position = s.position := by omega
  simp only [Parser.stalls, State.moved, beq_eq_decide, hiff]

/-- A round that consumes nothing stalls in both places, under an active guard. -/
theorem unlessStalled {α : Type} [Placed α] (name : String) (guard : Bool) {s s' : State}
    {p : Int} {x y : Reading α} (h : Reading.Follows D p x y) :
    Reading.Follows D p (if Parser.stalls guard s s' then .raise (Parser.stall name s) else x)
      (if Parser.stalls guard (s.moved D.distance) (s'.moved D.distance) then
        .raise (Parser.stall name (s.moved D.distance)) else y) := by
  rw [stalls_moved]
  split
  · exact .raise (Parser.stall name s)
  · exact h

theorem rounds (name : String) (guard : Bool) (hr : Reader.Follows D r r') (left : Nat)
    (s : State) :
    Reading.Follows D s.position (Reader.rounds name guard r left s)
      (Reader.rounds name guard r' left (s.moved D.distance)) := by
  induction left generalizing s with
  | zero => exact .unfinished
  | succ left ih =>
      apply (hr s).bind_outcome
      · intro value s'
        refine ⟨s'.position, .inr rfl, unlessStalled name guard ?_⟩
        apply (ih s').bind
        rintro ⟨values, s''⟩ _
        exact ⟨s''.position, .inr rfl, .values (value :: values) s''⟩
      · exact .values [] s

theorem roundsUntil (guard : Bool) (hr : Reader.Follows D r r') (hq : Reader.Follows D q q')
    (left : Nat) (s : State) :
    Reading.Follows D s.position (Reader.roundsUntil guard r q left s)
      (Reader.roundsUntil guard r' q' left (s.moved D.distance)) := by
  induction left generalizing s with
  | zero => exact .unfinished
  | succ left ih =>
      apply (hq s).bind_outcome
      · intro value s'
        exact ⟨s'.position, .inr rfl, .collected [] s'⟩
      · apply (hr s).bind_outcome
        · intro value s'
          refine ⟨s'.position, .inr rfl, unlessStalled "many_until" guard ?_⟩
          apply (ih s').bind
          rintro (_ | ⟨values, s''⟩) _
          · exact ⟨s'.position, .inl rfl, .pure none nofun⟩
          · exact ⟨s''.position, .inr rfl, .collected (value :: values) s''⟩
        · exact .pure none nofun

theorem times (hr : Reader.Follows D r r') (left : Nat) (s : State) :
    Reading.Follows D s.position (Reader.times r left s)
      (Reader.times r' left (s.moved D.distance)) := by
  induction left generalizing s with
  | zero => exact .collected [] s
  | succ left ih =>
      apply (hr s).bind_outcome
      · intro value s'
        refine ⟨s'.position, .inr rfl, ?_⟩
        apply (ih s').bind
        rintro (_ | ⟨values, s''⟩) _
        · exact ⟨s'.position, .inl rfl, .pure none nofun⟩
        · exact ⟨s''.position, .inr rfl, .collected (value :: values) s''⟩
      · exact .pure none nofun

/-! ## Whole repetitions -/

/-- A repetition with some value made of the values of its rounds. -/
theorem repeating (name : String) (guard : Bool) (f : List Value → Value)
    (hr : Reader.Follows D r r') (left : Nat) :
    Reader.Follows D
      (fun s => do
        let all ← Reader.rounds name guard r left s
        return .matched (f all.1) all.2)
      (fun s => do
        let all ← Reader.rounds name guard r' left s
        return .matched (f all.1) all.2) := by
  intro s
  apply (rounds name guard hr left s).bind
  rintro ⟨values, s'⟩ _
  exact ⟨s'.position, .inr rfl, .matched (f values) s'⟩

/-- A first match that has to be made, and what follows it. -/
theorem mandatory {f g : Value → Reader} (hr : Reader.Follows D r r')
    (hf : ∀ value, Reader.Follows D (f value) (g value)) :
    Reader.Follows D
      (fun s => do
        match ← r s with
        | .noMatch => return .noMatch
        | .matched value s' => f value s')
      (fun s => do
        match ← r' s with
        | .noMatch => return .noMatch
        | .matched value s' => g value s') := by
  intro s
  apply (hr s).bind_outcome
  · intro value s'
    exact ⟨s'.position, .inr rfl, hf value s'⟩
  · exact .noMatch

/-- The outcome that collected values stand for. -/
theorem ofValues {start : Int} {x y : Reading (Option (List Value × State))}
    (h : Reading.Follows D start x y) :
    Reading.Follows D start (do return Outcome.ofValues (← x))
      (do return Outcome.ofValues (← y)) := by
  apply h.bind
  rintro (_ | ⟨values, s⟩) _
  · exact ⟨start, .inl rfl, .noMatch⟩
  · exact ⟨s.position, .inr rfl, .matched (.list values) s⟩

theorem manyUntil (guard : Bool) (hr : Reader.Follows D r r') (hq : Reader.Follows D q q')
    (left : Nat) :
    Reader.Follows D
      (fun s => do
        let all ← Reader.roundsUntil guard r q left s
        return .ofValues all)
      (fun s => do
        let all ← Reader.roundsUntil guard r' q' left s
        return .ofValues all) :=
  fun s => ofValues (roundsUntil guard hr hq left s)

theorem count (hr : Reader.Follows D r r') (left : Nat) :
    Reader.Follows D
      (fun s => do
        let all ← Reader.times r left s
        return .ofValues all)
      (fun s => do
        let all ← Reader.times r' left s
        return .ofValues all) :=
  fun s => ofValues (times hr left s)

end Reader.Follows

end PullParse
