import PullParse.Proofs.Repetition.Chains

/-!
# Parsers one after the other

Parsers with their values and continuations form a monad, in everything that a run
does. A chain of two that drops the first value is associative, so brackets in a
longer sequence make no difference: every way to set them is the loop over the
parsers, which runs one after the other and ends with the first that does not
match.
-/

namespace PullParse

namespace Parser

/-! ## Laws of chaining -/

theorem pure_bind_eq (value : Value) (f : Value → Parser) :
    (Parser.pure value).bind f = f value := rfl

theorem bind_pure_eq (p : Parser) : p.bind Parser.pure = p := by
  funext s
  refine (bind_congr fun outcome => ?_).trans (bind_pure (p s))
  cases outcome with
  | matched value s' => rfl
  | noMatch => rfl

theorem bind_bind (p : Parser) (f g : Value → Parser) :
    (p.bind f).bind g = p.bind fun value => (f value).bind g := by
  funext s
  refine (bind_assoc (p s) _ _).trans (bind_congr fun outcome => ?_)
  cases outcome with
  | matched value s' => rfl
  | noMatch => rfl

/-- What follows the parser that an action selects is performed behind the action. -/
theorem ofAction_bind (x : Action Parser) (g : Value → Parser) :
    (ofAction x).bind g = ofAction (return (← x).bind g) := by
  funext s
  ext budget ctx
  obtain ⟨notes, result⟩ := x
  cases result with
  | ok p =>
      have hnotes : notes ++ [] = notes := List.append_nil notes
      show _ = ((ofAction ⟨notes ++ [], .ok (p.bind g)⟩) s).run budget ctx
      rw [hnotes]
      rfl
  | error fault => rfl

/-- A chain that drops the first value is one whose continuation ignores it. -/
theorem andThen_eq_bind (p q : Parser) : p.andThen q = p.bind fun _ => q := rfl

theorem andThen_assoc (p q r : Parser) : (p.andThen q).andThen r = p.andThen (q.andThen r) :=
  p.bind_bind (fun _ => q) fun _ => r

instance : Std.Associative andThen := ⟨andThen_assoc⟩

/-! ## Sequences -/

/-- The loop over parsers. Each starts where the one before has ended, and the outcome of the last
is the outcome of all. -/
def inTurn : List Parser → State → Outcome → Run Context Outcome
  | [], _, outcome => return outcome
  | p :: rest, s, _ => do
    match ← p s with
    | .noMatch => return .noMatch
    | .matched value s' => inTurn rest s' (.matched value s')

/-- Behind another parser a sequence is part of the longer one. -/
theorem andThen_sequence (p q r : Parser) (rest : List Parser) :
    p.andThen (sequence q r rest) = rest.foldl andThen ((p.andThen q).andThen r) := by
  rw [sequence, andThen_assoc, List.foldl_assoc, List.foldl_assoc, List.foldl_assoc]

/-- Parsers one after the other by continuations that ignore the values. -/
def bindAll (p : Parser) : List Parser → Parser
  | [] => p
  | q :: rest => p.bind fun _ => bindAll q rest

theorem bindAll_eq_foldl (p : Parser) (rest : List Parser) :
    bindAll p rest = rest.foldl andThen p := by
  induction rest generalizing p with
  | nil => rfl
  | cons q rest ih =>
      rw [bindAll, List.foldl_cons, List.foldl_assoc, ih q, andThen_eq_bind]

theorem sequence_eq_bindAll (p q : Parser) (rest : List Parser) :
    sequence p q rest = bindAll p (q :: rest) := (bindAll_eq_foldl p (q :: rest)).symm

theorem inTurn_eq_bindAll (p : Parser) (rest : List Parser) (s : State) (outcome : Outcome) :
    inTurn (p :: rest) s outcome = bindAll p rest s := by
  induction rest generalizing p s outcome with
  | nil =>
      rw [bindAll, inTurn]
      refine (bind_congr fun outcome => ?_).trans (bind_pure (p s))
      cases outcome with
      | matched value s' => rfl
      | noMatch => rfl
  | cons q rest ih =>
      rw [bindAll, inTurn]
      refine bind_congr fun outcome => ?_
      cases outcome with
      | matched value s' => exact ih q s' _
      | noMatch => rfl

end Parser

/-! ## Brackets -/

/-- A way to set brackets: a parser alone, or a sequence of two or more bracketings. -/
inductive Bracketing where
  | single (p : Parser)
  | sequence (first second : Bracketing) (rest : List Bracketing)

namespace Bracketing

mutual

/-- The parser in which every bracket is a sequence of its own. -/
def parser : Bracketing → Parser
  | single p => p
  | sequence first second rest => .sequence first.parser second.parser (parsers rest)

def parsers : List Bracketing → List Parser
  | [] => []
  | b :: rest => b.parser :: parsers rest

end

mutual

/-- The parsers without the brackets. -/
def leaves : Bracketing → List Parser
  | single p => [p]
  | sequence first second rest => first.leaves ++ (second.leaves ++ allLeaves rest)

def allLeaves : List Bracketing → List Parser
  | [] => []
  | b :: rest => b.leaves ++ allLeaves rest

end

mutual

/-- Behind another parser a bracket can be left out. The parser in front spares the first leaf a case
of its own. -/
theorem andThen_bracketing (p : Parser) :
    ∀ b : Bracketing, p.andThen b.parser = b.leaves.foldl Parser.andThen p
  | single q => by rw [parser, leaves, List.foldl_cons, List.foldl_nil]
  | sequence first second rest => by
      rw [parser, leaves, Parser.andThen_sequence, andThen_bracketing p first, andThen_bracketing _ second,
        foldl_parsers, List.foldl_append, List.foldl_append]

theorem foldl_parsers (p : Parser) :
    ∀ bs : List Bracketing,
      (parsers bs).foldl Parser.andThen p = (allLeaves bs).foldl Parser.andThen p
  | [] => by rw [parsers, allLeaves]
  | b :: rest => by
      rw [parsers, allLeaves, List.foldl_cons, List.foldl_append, andThen_bracketing p b,
        foldl_parsers _ rest]

end

/-- Brackets make no difference. -/
theorem parser_eq {b : Bracketing} {p : Parser} {rest : List Parser} (h : b.leaves = p :: rest) :
    b.parser = Parser.bindAll p rest := by
  have hbehind := andThen_bracketing (.pure .null) b
  rw [h, List.foldl_cons] at hbehind
  exact hbehind.trans (Parser.bindAll_eq_foldl p rest).symm

end Bracketing

/-! ## Where the parsers are run -/

/-- All parsers match, each where the one before has led. -/
inductive Passes (budget : Nat) : Visit → List Parser → Visit → Prop
  | nil {v} : Passes budget v [] v
  | cons {v v' v'' value p before} (h : v.run p budget = .done (.matched value v'.state) v'.context)
      (hrest : Passes budget v' before v'') : Passes budget v (p :: before) v''

/-- The ending is not a match. -/
def Ending.Missed (e : Ending Context Outcome) : Prop :=
  ∀ value s ctx, e ≠ .done (.matched value s) ctx

variable {p q r : Parser} {budget : Nat} {v v' v'' : Visit} {before after rest : List Parser}
variable {value : Value}

theorem Parser.run_bindAll_cons (h : v.run p budget = .done (.matched value v'.state) v'.context) :
    v.run (Parser.bindAll p (q :: rest)) budget = v'.run (Parser.bindAll q rest) budget := by
  rw [Visit.run, Parser.bindAll, Parser.bind, Run.run_bind, ← Visit.run, h]
  rfl

/-- Where the first parser does not match, none of the others is run. -/
theorem Parser.run_bindAll_missed (h : (v.run p budget).Missed) :
    v.run (Parser.bindAll p rest) budget = v.run p budget := by
  cases rest with
  | nil => rfl
  | cons q rest =>
      rw [Visit.run, Parser.bindAll, Parser.bind, Run.run_bind, ← Visit.run]
      cases hrun : v.run p budget with
      | done outcome ctx =>
          cases outcome with
          | matched value s => exact absurd hrun (h value s ctx)
          | noMatch => rfl
      | raised fault ctx => rfl
      | unfinished => rfl

/-- Behind parsers that match the sequence goes on where they have led. -/
theorem Passes.run_bindAll (h : Passes budget v before v')
    (heq : p :: rest = before ++ r :: after) :
    v.run (Parser.bindAll p rest) budget = v'.run (Parser.bindAll r after) budget := by
  induction h generalizing p rest with
  | nil =>
      obtain ⟨rfl, rfl⟩ := List.cons.inj heq
      rfl
  | @cons v v₁ v' value p' before hrun _ ih =>
      obtain ⟨rfl, hbehind⟩ := List.cons.inj heq
      cases rest with
      | nil => simp at hbehind
      | cons q rest => exact (Parser.run_bindAll_cons hrun).trans (ih hbehind)

/-- A sequence ends where a parser does not match or behind the last one. -/
theorem Parser.exists_passes (p : Parser) (rest : List Parser) (v : Visit) (budget : Nat) :
    ∃ before r after v', p :: rest = before ++ r :: after ∧ Passes budget v before v' ∧
      v.run (Parser.bindAll p rest) budget = v'.run r budget ∧
      (after = [] ∨ (v'.run r budget).Missed) := by
  induction rest generalizing p v with
  | nil => exact ⟨[], p, [], v, rfl, .nil, rfl, .inl rfl⟩
  | cons q rest ih =>
      by_cases hmissed : (v.run p budget).Missed
      · exact ⟨[], p, q :: rest, v, rfl, .nil, run_bindAll_missed hmissed, .inr hmissed⟩
      · obtain ⟨value, s, ctx, hrun⟩ : ∃ value s ctx,
            v.run p budget = .done (.matched value s) ctx := by
          simpa [Ending.Missed] using hmissed
        obtain ⟨before, r, after, v', heq, hpasses, hlast, hend⟩ := ih q ⟨s, ctx⟩
        refine ⟨p :: before, r, after, v', congrArg (p :: ·) heq, .cons hrun hpasses, ?_, hend⟩
        exact (Parser.run_bindAll_cons hrun).trans hlast

/-- **Chaining is a monad, and brackets in a sequence make no difference.** The laws are equalities
of parsers: on every state and in every context there are the same matches and faults, the same
notes of callbacks in the same order and the same calls of the producer, also where a continuation
is a callback that leaves notes or raises a fault of its own. A sequence of two or more parsers is
the loop over them and the chain of continuations that ignore the values, and every way to set
brackets in it is the same parser. It runs the parsers in order, each where the one before has led,
up to the first that does not match, and ends as this one does, whatever the later ones are. -/
theorem Parser.sequence_brackets :
    (∀ (value : Value) (f : Value → Parser), (Parser.pure value).bind f = f value) ∧
      (∀ p : Parser, p.bind Parser.pure = p) ∧
      (∀ (p : Parser) (f g : Value → Parser),
        (p.bind f).bind g = p.bind fun value => (f value).bind g) ∧
      (∀ (p : Parser) (f : Value → Action Parser) (g : Value → Parser),
        (p.bind fun value => Parser.ofAction (f value)).bind g =
          p.bind fun value => Parser.ofAction (return (← f value).bind g)) ∧
      ∀ (p q : Parser) (rest : List Parser),
        (Parser.sequence p q rest = fun s => Parser.inTurn (p :: q :: rest) s .noMatch) ∧
        Parser.sequence p q rest = Parser.bindAll p (q :: rest) ∧
        (∀ b : Bracketing, b.leaves = p :: q :: rest → b.parser = Parser.sequence p q rest) ∧
        ∀ (v : Visit) (budget : Nat),
          (∃ before r after v', p :: q :: rest = before ++ r :: after ∧
            Passes budget v before v' ∧
            v.run (Parser.sequence p q rest) budget = v'.run r budget ∧
            (after = [] ∨ (v'.run r budget).Missed)) ∧
          ∀ before r after v', p :: q :: rest = before ++ r :: after →
            Passes budget v before v' → (v'.run r budget).Missed →
              v.run (Parser.sequence p q rest) budget = v'.run r budget := by
  refine ⟨Parser.pure_bind_eq, Parser.bind_pure_eq, Parser.bind_bind, fun p f g => ?_,
    fun p q rest => ?_⟩
  · rw [Parser.bind_bind]
    exact congrArg p.bind (funext fun value => Parser.ofAction_bind (f value) g)
  · rw [Parser.sequence_eq_bindAll]
    refine ⟨?_, rfl, fun b h => b.parser_eq h, fun v budget => ⟨?_, ?_⟩⟩
    · funext s
      exact (Parser.inTurn_eq_bindAll p (q :: rest) s .noMatch).symm
    · exact Parser.exists_passes p (q :: rest) v budget
    · intro before r after v' heq hpasses hmissed
      exact (hpasses.run_bindAll heq).trans (Parser.run_bindAll_missed hmissed)

/-- Where the first of the three tokens has led. -/
def behindItem : Visit :=
  ⟨⟨1, .null⟩, ⟨(Cache.fresh (.ofTokens threeTokens)).reads [0], Session.fresh.write (.pull 1)⟩⟩

/-- The second parser of three does not match, so the fault of the third is not raised, with
brackets around the last two. -/
theorem sequence_brackets_missed :
    Passes 1 ⟨⟨0, .null⟩, .opened (.ofTokens threeTokens) .fresh⟩ [.is (.str "a")] behindItem ∧
      (behindItem.run (.is (.str "b")) 1).Missed ∧
      (Bracketing.sequence (.single (.is (.str "a"))) (.sequence (.single (.is (.str "b")))
        (.single (.raise .outOfMemory)) []) []).leaves =
          [.is (.str "a"), .is (.str "b"), .raise .outOfMemory] ∧
      (Visit.run ⟨⟨0, .null⟩, .opened (.ofTokens threeTokens) .fresh⟩
        (Bracketing.sequence (.single (.is (.str "a"))) (.sequence (.single (.is (.str "b")))
          (.single (.raise .outOfMemory)) []) []).parser 1).result? = some (.ok .noMatch) := by
  have hrun : Visit.run ⟨⟨0, .null⟩, .opened (.ofTokens threeTokens) .fresh⟩ (.is (.str "a")) 1 =
      .done (.matched (.int 1) behindItem.state) behindItem.context := by cbv
  have hpasses : Passes 1 ⟨⟨0, .null⟩, .opened (.ofTokens threeTokens) .fresh⟩
      [.is (.str "a")] behindItem := .cons hrun .nil
  have hresult : (behindItem.run (.is (.str "b")) 1).result? = some (.ok .noMatch) := by cbv
  have hmissed : (behindItem.run (.is (.str "b")) 1).Missed := by
    intro value s ctx hrun
    rw [hrun] at hresult
    cases hresult
  obtain ⟨-, -, hbrackets, hruns⟩ := Parser.sequence_brackets.2.2.2.2 (.is (.str "a"))
    (.is (.str "b")) [.raise .outOfMemory]
  refine ⟨hpasses, hmissed, rfl, ?_⟩
  rw [hbrackets _ rfl, (hruns _ 1).2 [.is (.str "a")] _ [.raise .outOfMemory] _ rfl hpasses hmissed]
  exact hresult

end PullParse
