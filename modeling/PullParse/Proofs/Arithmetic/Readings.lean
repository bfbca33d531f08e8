import PullParse.Proofs.Arithmetic.Grammar
import PullParse.Proofs.Arithmetic.Sentences

/-!
# Readings of arithmetic

What the parts of the grammar give on the words ahead of a state: a test of one
token looks at the first word, and a chain collects steps and applies them from
left to right, which is the value of the chain.
-/

namespace PullParse.Arithmetic

open Operator

/-- The stream of a list of words. -/
def streamOf (ts : List Lexeme) : TokenStream := .ofList (ts.map Lexeme.token)

/-- The words of the list from a state on. -/
structure Ahead (ts : List Lexeme) (s : State) (words : List Lexeme) : Prop where
  nonneg : 0 ≤ s.position
  drop : ts.drop s.position.toNat = words

/-- The state some words further on. -/
def State.ahead (s : State) (n : Nat) : State := { s with position := s.position + n }

@[simp] theorem State.ahead_zero (s : State) : ahead s 0 = s := by
  simp [ahead]

theorem State.ahead_ahead (s : State) (m n : Nat) :
    ahead (ahead s m) n = ahead s (m + n) := by
  simp [ahead, Int.add_assoc]

namespace Ahead

variable {ts words rest : List Lexeme} {s : State}

/-- Behind a phrase the rest is ahead. -/
theorem behind (h : Ahead ts s (words ++ rest)) : Ahead ts (State.ahead s words.length) rest := by
  have hnonneg := h.nonneg
  refine ⟨by simp only [State.ahead]; omega, ?_⟩
  have hpos : (State.ahead s words.length).position.toNat = s.position.toNat + words.length := by
    simp only [State.ahead]
    omega
  rw [hpos, ← List.drop_drop, h.drop, List.drop_left]

theorem behind_cons {x : Lexeme} (h : Ahead ts s (x :: rest)) :
    Ahead ts (State.ahead s 1) rest := by
  have hcons : Ahead ts s ([x] ++ rest) := h
  exact hcons.behind

/-- The token at a state is the first word ahead, or the end. -/
theorem streamOf_eq (h : Ahead ts s words) :
    streamOf ts s.position.toNat = (words.head?.map Lexeme.token).getD .eof := by
  rw [← h.drop, List.head?_drop]
  simp [streamOf, TokenStream.ofList]

end Ahead

/-! ## Single tokens -/

theorem Lexeme.token_cls (x : Lexeme) : x.token.cls = .str x.symbol := by
  cases x <;> rfl

theorem Lexeme.isEof_token (x : Lexeme) : x.token.isEof = false := by
  cases x <;> rfl

/-- A symbol names a word, the number apart. -/
theorem Lexeme.symbol_eq_iff {x : Lexeme} (op : Operator) :
    x.symbol = op.symbol ↔ x = .operator op := by
  cases x with
  | number n => cases op <;> simp [Lexeme.symbol, Operator.symbol, numberClass]
  | operator op' => cases op <;> cases op' <;> simp [Lexeme.symbol, Operator.symbol]
  | opening => cases op <;> simp [Lexeme.symbol, Operator.symbol]
  | closing => cases op <;> simp [Lexeme.symbol, Operator.symbol]

section

variable {ts words rest : List Lexeme} (settings : Settings) (budget : Nat)
variable (rule : String → List Value → Reader) {s : State} {x : Lexeme}

/-- The test of a class looks at the first word ahead. -/
theorem result_is_cons (h : Ahead ts s (x :: rest)) (c : String) :
    ((Grammar.is (.str c)).read (streamOf ts) settings budget rule s).result =
      some (.ok (if x.symbol = c then .matched x.token.value (State.ahead s 1) else .noMatch)) := by
  have htoken : streamOf ts s.position.toNat = x.token := h.streamOf_eq
  have htest : (x.token.cls.equal (.str c)) = (x.symbol == c) := by
    rw [x.token_cls, Value.equal]
  rw [Grammar.is, Grammar.isWith, Grammar.result_satisfy rfl, htoken, htest, x.isEof_token]
  simp [State.ahead]

theorem result_is_nil (h : Ahead ts s []) (c : String) :
    ((Grammar.is (.str c)).read (streamOf ts) settings budget rule s).result =
      some (.ok .noMatch) := by
  have htoken : streamOf ts s.position.toNat = .eof := h.streamOf_eq
  have htest : Token.eof.cls.equal (.str c) = false := by simp [Token.eof, Value.equal]
  rw [Grammar.is, Grammar.isWith, Grammar.result_satisfy rfl, htoken, htest]
  rfl

/-- What a choice of operators gives at the first word ahead. -/
def operatorOutcome (ops : List Operator) (s : State) : List Lexeme → Outcome
  | .operator op :: _ =>
    if op ∈ ops then .matched (.str op.symbol) (State.ahead s 1) else .noMatch
  | _ => .noMatch

theorem result_is_operator (h : Ahead ts s words) (op : Operator) :
    ((Grammar.is (.str op.symbol)).read (streamOf ts) settings budget rule s).result =
      some (.ok (operatorOutcome [op] s words)) := by
  cases words with
  | nil => exact result_is_nil settings budget rule h _
  | cons x rest =>
      rw [result_is_cons settings budget rule h]
      by_cases hx : x = .operator op
      · subst hx
        simp [Lexeme.symbol, operatorOutcome, Lexeme.token, symbolToken]
      · rw [if_neg fun hsymbol => hx ((Lexeme.symbol_eq_iff op).mp hsymbol)]
        cases x with
        | operator op' =>
            have hop : op' ≠ op := fun h => hx (congrArg Lexeme.operator h)
            simp [operatorOutcome, hop]
        | number n => rfl
        | opening => rfl
        | closing => rfl

/-- One more alternative is one more operator. -/
theorem result_either_operator (h : Ahead ts s words) {g : Grammar} {ops : List Operator}
    (hg : (g.read (streamOf ts) settings budget rule s).result =
      some (.ok (operatorOutcome ops s words))) (op : Operator) :
    ((Grammar.either g (.is (.str op.symbol))).read (streamOf ts) settings budget rule s).result =
      some (.ok (operatorOutcome (ops ++ [op]) s words)) := by
  have hop := result_is_operator settings budget rule h op
  match words with
  | .operator op' :: rest =>
      by_cases hmem : op' ∈ ops
      · simp only [operatorOutcome, hmem, if_true, List.mem_append, true_or] at hg ⊢
        exact Grammar.result_either_matched hg
      · simp only [operatorOutcome, hmem, if_false, List.mem_append, false_or] at hg hop ⊢
        rw [Grammar.result_either_noMatch hg, hop]
  | [] => exact (Grammar.result_either_noMatch hg).trans hop
  | .number _ :: _ => exact (Grammar.result_either_noMatch hg).trans hop
  | .opening :: _ => exact (Grammar.result_either_noMatch hg).trans hop
  | .closing :: _ => exact (Grammar.result_either_noMatch hg).trans hop

/-- A choice of operators matches if one of them stands ahead. -/
theorem result_operator (h : Ahead ts s words) (first : Operator) (others : List Operator) :
    ((operatorGrammar first others).read (streamOf ts) settings budget rule s).result =
      some (.ok (operatorOutcome (first :: others) s words)) := by
  -- the choice grows to the right, so the operators chosen from so far are carried along
  suffices hgrown : ∀ (g : Grammar) (ops : List Operator),
      (g.read (streamOf ts) settings budget rule s).result =
        some (.ok (operatorOutcome ops s words)) →
      ((others.foldl (fun g op => .either g (.is (.str op.symbol))) g).read (streamOf ts) settings
        budget rule s).result = some (.ok (operatorOutcome (ops ++ others) s words)) from
    hgrown _ [first] (result_is_operator settings budget rule h first)
  induction others with
  | nil =>
      intro g ops hg
      rw [List.append_nil]
      exact hg
  | cons op others ih =>
      intro g ops hg
      rw [List.foldl_cons, List.append_cons]
      exact ih _ _ (result_either_operator settings budget rule h hg op)

end

/-! ## Levels -/

/-- The grammar of a level. -/
def Level.grammar : Level → Grammar
  | .sum => sumGrammar
  | .product => termGrammar
  | .atom => atomGrammar

/-- The operator that a level tries first. -/
def Level.first : Level → Operator
  | .sum => plus
  | _ => times

def Level.others : Level → List Operator
  | .sum => [minus]
  | _ => [divide]

theorem Level.grammar_eq_chain {level : Level} (h : level ≠ .atom) :
    level.grammar = chainGrammar level.operand.grammar level.first level.others := by
  cases level with
  | sum => rfl
  | product => rfl
  | atom => exact absurd rfl h

theorem Level.mem_operators {level : Level} (h : level ≠ .atom) (op : Operator) :
    op ∈ level.first :: level.others ↔ op.level = level := by
  cases level with
  | sum => cases op <;> decide
  | product => cases op <;> decide
  | atom => exact absurd rfl h

/-! ## Steps -/

/-- A number, or the fault that stands for its absence. -/
def valueOrFault : Option Int → Except Fault Value
  | some n => .ok (.int n)
  | none => .error .divisionByZero

/-- The step that a chain collects for a link whose operand has a value. -/
def Link.step (link : Link) : Value := .pair (.str link.op.symbol) (.int (link.value.getD 0))

theorem ofSymbol?_symbol (op : Operator) : Operator.ofSymbol? op.symbol = some op := by
  cases op <;> rfl

/-- A step computes what its operator does, and fails where that has no value. -/
theorem applyStep_step (a : Int) {link : Link} {n : Int} (h : link.value = some n) :
    applyStep (.int a) link.step = valueOrFault (link.op.denote a n) := by
  obtain ⟨op, words, value⟩ := link
  subst h
  show operate (.str op.symbol) (.int a) (.int n) = _
  rw [operate]
  simp only [ofSymbol?_symbol]
  cases op with
  | divide => by_cases hn : n = 0 <;> simp [Operator.apply, denote, hn, Except.map, valueOrFault]
  | plus => rfl
  | minus => rfl
  | times => rfl

/-- The collected steps give the value of the chain. -/
theorem applySteps_step (a : Int) {links : List Link}
    (h : (links.all fun link => link.value.isSome) = true) :
    applySteps (.int a) (.list (links.map Link.step)) =
      valueOrFault (chainValue (some a) links) := by
  show (links.map Link.step).foldlM applyStep (.int a) = _
  induction links generalizing a with
  | nil => rfl
  | cons link links ih =>
      rw [List.all_cons, Bool.and_eq_true] at h
      obtain ⟨n, hn⟩ := Option.isSome_iff_exists.mp h.1
      have hvalue : chainValue (some a) (link :: links) =
          chainValue (link.op.denote a n) links := by
        show chainValue (Link.apply (some a) link) links = _
        rw [Link.apply, hn]
        rfl
      rw [List.map_cons, List.foldlM_cons, applyStep_step a hn, hvalue]
      cases hdenote : link.op.denote a n with
      | none =>
          rw [chainValue_none]
          rfl
      | some b => exact ih b h.2

/-- A chain has no value if one of its operands has none. -/
theorem chainValue_of_operand_none (first : Option Int) {links : List Link}
    (h : (links.all fun link => link.value.isSome) = false) : chainValue first links = none := by
  induction links generalizing first with
  | nil => exact absurd h (by decide)
  | cons link links ih =>
      show chainValue (Link.apply first link) links = none
      cases hvalue : link.value with
      | none =>
          have hnone : Link.apply first link = none := by
            rw [Link.apply, hvalue]
            cases first <;> rfl
          rw [hnone, chainValue_none]
      | some n =>
          rw [List.all_cons, hvalue, Option.isSome_some, Bool.true_and] at h
          exact ih _ h

/-- A chain of operands with values only fails to have a value for a division. -/
theorem divide_mem_of_chainValue_none {a : Int} {links : List Link}
    (h : (links.all fun link => link.value.isSome) = true)
    (hnone : chainValue (some a) links = none) :
    .operator .divide ∈ links.flatMap Link.lexemes := by
  induction links generalizing a with
  | nil => exact absurd hnone (by simp [chainValue])
  | cons link links ih =>
      rw [List.all_cons, Bool.and_eq_true] at h
      obtain ⟨n, hn⟩ := Option.isSome_iff_exists.mp h.1
      have hlink : Link.apply (some a) link = link.op.denote a n := by
        rw [Link.apply, hn]
        rfl
      rw [List.flatMap_cons, List.mem_append]
      cases hdenote : link.op.denote a n with
      | none =>
          left
          rw [Link.lexemes, eq_divide_of_denote hdenote]
          exact List.mem_cons_self
      | some b =>
          right
          have hrest : chainValue (Link.apply (some a) link) links = none := hnone
          rw [hlink, hdenote] at hrest
          exact ih h.2 hrest

section

variable {ts words rest : List Lexeme} {settings : Settings} {budget : Nat}
variable {rule : String → List Value → Reader} {s : State} {level : Level} {operand : Grammar}

/-- Behind an operator of the level a step reads its operand. -/
theorem result_step_operator (hlevel : level ≠ .atom) {op : Operator} (hop : op.level = level)
    (h : Ahead ts s (.operator op :: rest)) :
    ((stepGrammar operand level.first level.others).read (streamOf ts) settings budget rule
        s).result =
      ((Grammar.fmap (fun value => return .pair (.str op.symbol) value) operand).read (streamOf ts)
        settings budget rule (State.ahead s 1)).result := by
  have hmatch := result_operator settings budget rule h
    level.first level.others
  simp only [operatorOutcome, (Level.mem_operators hlevel op).mpr hop, if_true] at hmatch
  rw [stepGrammar, Grammar.result_bind_matched hmatch]

/-- A step does not match where no operator of the level stands. -/
theorem result_step_noMatch (settings : Settings) (budget : Nat)
    (rule : String → List Value → Reader) (operand : Grammar) (hlevel : level ≠ .atom)
    (h : Ahead ts s words) (hwords : ∀ op, words.head? = some (.operator op) → op.level ≠ level) :
    ((stepGrammar operand level.first level.others).read (streamOf ts) settings budget rule
        s).result = some (.ok .noMatch) := by
  have hmiss := result_operator settings budget rule h
    level.first level.others
  have houtcome : operatorOutcome (level.first :: level.others) s words = .noMatch := by
    match words with
    | .operator op :: rest =>
        have hop := hwords op rfl
        rw [operatorOutcome, if_neg fun hmem => hop ((Level.mem_operators hlevel op).mp hmem)]
    | [] => rfl
    | .number _ :: _ => rfl
    | .opening :: _ => rfl
    | .closing :: _ => rfl
  rw [houtcome] at hmiss
  rw [stepGrammar]
  exact Grammar.result_bind_noMatch hmiss

end

end PullParse.Arithmetic
