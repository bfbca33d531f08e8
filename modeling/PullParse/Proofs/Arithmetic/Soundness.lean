import PullParse.Proofs.Arithmetic.Readings

/-!
# Only sentences are read

A reading of a level ends in one of three ways: it takes a phrase of the level
off the front of the words ahead, with its value; it does not match; or it
divides by zero, in which case a division stands ahead. There is no fourth way
as long as the budget exceeds the number of words, since every rule inside
another has an opening parenthesis of its own, and every round an operator.
-/

namespace PullParse.Arithmetic

/-- How a reading of some phrase ends from a state with words ahead. -/
inductive Verdict (words : List Lexeme) (s : State) (phrase : List Lexeme → Value → Prop) :
    Option (Except Fault Outcome) → Prop
  | matched (front rest : List Lexeme) (v : Value) (hwords : words = front ++ rest)
      (h : phrase front v) :
      Verdict words s phrase (some (.ok (.matched v (State.ahead s front.length))))
  | noMatch : Verdict words s phrase (some (.ok .noMatch))
  | divisionByZero (h : .operator .divide ∈ words) :
      Verdict words s phrase (some (.error .divisionByZero))

/-- A reader takes nothing but phrases, wherever no more than `bound` words are ahead. -/
def Sound (ts : List Lexeme) (bound : Nat) (r : Reader) (phrase : List Lexeme → Value → Prop) :
    Prop :=
  ∀ (s : State) (words : List Lexeme), Ahead ts s words → words.length ≤ bound →
    Verdict words s phrase (r s).result

theorem Sound.mono {ts : List Lexeme} {bound bound' : Nat} {r : Reader}
    {phrase : List Lexeme → Value → Prop} (h : Sound ts bound r phrase) (hle : bound' ≤ bound) :
    Sound ts bound' r phrase := fun s words hahead hlen => h s words hahead (le_trans hlen hle)

/-- The words and the value of a phrase of a level. -/
def Phrase (level : Level) (words : List Lexeme) (v : Value) : Prop :=
  ∃ n, v = .int n ∧ Sentence level words (some n)

/-- A link of a level whose operand has a value. -/
structure Link.Sound (level : Level) (link : Link) : Prop where
  level_eq : link.op.level = level
  isSome : link.value.isSome = true
  sentence : Sentence level.operand link.words link.value

/-- The words and the value of a step. -/
def Step (level : Level) (words : List Lexeme) (v : Value) : Prop :=
  ∃ link : Link, link.Sound level ∧ words = link.lexemes ∧ v = link.step

section

variable {ts words : List Lexeme} {settings : Settings} {budget bound : Nat}
variable {rule : String → List Value → Reader} {s : State} {level : Level} {operand : Grammar}

theorem sound_step (hlevel : level ≠ .atom)
    (hoperand : Sound ts bound (operand.read (streamOf ts) settings budget rule)
      (Phrase level.operand)) :
    Sound ts bound
      ((stepGrammar operand level.first level.others).read (streamOf ts) settings budget rule)
      (Step level) := by
  intro s words h hlen
  by_cases hhead : ∃ op, words.head? = some (.operator op) ∧ op.level = level
  · obtain ⟨op, hop, hoplevel⟩ := hhead
    obtain ⟨rest, rfl⟩ := List.head?_eq_some_iff.mp hop
    rw [result_step_operator hlevel hoplevel h]
    have hverdict := hoperand _ _ h.behind_cons (Nat.le_of_succ_le hlen)
    generalize hresult : (operand.read (streamOf ts) settings budget rule
      (State.ahead s 1)).result = result at hverdict
    cases hverdict with
    | matched front rest v hwords hphrase =>
        obtain ⟨n, rfl, hsentence⟩ := hphrase
        rw [Grammar.result_fmap_ok hresult rfl, State.ahead_ahead, Nat.add_comm]
        exact .matched (.operator op :: front) rest _ (congrArg _ hwords)
          ⟨⟨op, front, some n⟩, ⟨hoplevel, rfl, hsentence⟩, rfl, rfl⟩
    | noMatch =>
        rw [Grammar.fmap, Grammar.result_bind_noMatch hresult]
        exact .noMatch
    | divisionByZero hmem =>
        rw [Grammar.fmap, Grammar.result_bind_error hresult]
        exact .divisionByZero (List.mem_cons_of_mem _ hmem)
  · rw [result_step_noMatch settings budget rule operand hlevel h fun op hop hoplevel =>
      hhead ⟨op, hop, hoplevel⟩]
    exact .noMatch

/-- The rounds of a chain take links off the front of the words ahead, if there are more rounds
left than words. -/
theorem sound_rounds (name : String) (guard : Bool) (hlevel : level ≠ .atom)
    (hoperand : Sound ts bound (operand.read (streamOf ts) settings budget rule)
      (Phrase level.operand))
    {left : Nat} (hleft : words.length < left)
    (h : Ahead ts s words) (hlen : words.length ≤ bound) :
    (∃ (links : List Link) (rest : List Lexeme),
      words = links.flatMap Link.lexemes ++ rest ∧ (∀ link ∈ links, link.Sound level) ∧
        (Reader.rounds name guard ((stepGrammar operand level.first level.others).read
            (streamOf ts) settings budget rule) left s).result =
          some (.ok (links.map Link.step,
            State.ahead s (links.flatMap Link.lexemes).length))) ∨
      .operator .divide ∈ words ∧
        (Reader.rounds name guard ((stepGrammar operand level.first level.others).read
            (streamOf ts) settings budget rule) left s).result =
          some (.error .divisionByZero) := by
  induction left generalizing words s with
  | zero => exact absurd hleft (Nat.not_lt_zero _)
  | succ left ih =>
      have hverdict := sound_step hlevel hoperand s words h hlen
      generalize hresult : ((stepGrammar operand level.first level.others).read (streamOf ts)
        settings budget rule s).result = result at hverdict
      cases hverdict with
      | matched front rest v hwords hphrase =>
          obtain ⟨link, hlink, rfl, rfl⟩ := hphrase
          subst hwords
          have hmoved : (State.ahead s link.lexemes.length).position ≠ s.position := by
            simp only [State.ahead, Link.lexemes, List.length_cons]
            omega
          have hshorter : rest.length < (link.lexemes ++ rest).length := by
            simp [Link.lexemes]
          rcases ih (Nat.lt_of_lt_of_le hshorter (Nat.le_of_lt_succ hleft)) h.behind
              (le_trans hshorter.le hlen) with
            ⟨links, rest', hrest, hlinks, hrounds⟩ | ⟨hmem, hrounds⟩
          · left
            refine ⟨link :: links, rest', ?_, ?_, ?_⟩
            · rw [hrest, List.flatMap_cons, List.append_assoc]
            · intro x hx
              rcases List.mem_cons.mp hx with rfl | hx
              · exact hlink
              · exact hlinks x hx
            · rw [Reader.result_rounds_matched hresult hmoved hrounds, State.ahead_ahead,
                ← List.length_append]
              rfl
          · right
            exact ⟨List.mem_append_right _ hmem,
              Reader.result_rounds_matched_error hresult hmoved hrounds⟩
      | noMatch =>
          left
          refine ⟨[], words, rfl, fun _ hx => absurd hx List.not_mem_nil, ?_⟩
          rw [Reader.result_rounds_noMatch hresult]
          simp
      | divisionByZero hmem =>
          right
          exact ⟨hmem, Reader.result_rounds_error hresult⟩

/-- A chain of sound operands is sound. -/
theorem sound_chain (hlevel : level ≠ .atom)
    (hoperand : Sound ts bound (operand.read (streamOf ts) settings budget rule)
      (Phrase level.operand)) (hbound : bound < budget) :
    Sound ts bound
      ((chainGrammar operand level.first level.others).read (streamOf ts) settings budget rule)
      (Phrase level) := by
  intro s words h hlen
  have hverdict := hoperand s words h hlen
  rw [chainGrammar]
  generalize hresult : (operand.read (streamOf ts) settings budget rule s).result = result
    at hverdict
  cases hverdict with
  | matched front rest v hwords hphrase =>
      obtain ⟨a, rfl, hsentence⟩ := hphrase
      subst hwords
      have hrest : rest.length ≤ bound := by
        rw [List.length_append] at hlen
        omega
      rw [Grammar.result_bind_matched hresult]
      rcases sound_rounds "many" settings.guard.truth hlevel hoperand
          (Nat.lt_of_le_of_lt hrest hbound) h.behind hrest with
        ⟨links, rest', rfl, hlinks, hrounds⟩ | ⟨hmem, hrounds⟩
      · have hall : (links.all fun link => link.value.isSome) = true :=
          List.all_eq_true.mpr fun link hlink => (hlinks link hlink).isSome
        have happly := applySteps_step a hall
        rw [State.ahead_ahead, ← List.length_append] at hrounds
        have hmany := Grammar.result_many_ok hrounds
        have hchain := Sentence.chain links hlevel hsentence
          (fun link hlink => (hlinks link hlink).level_eq)
          (fun link hlink => (hlinks link hlink).sentence)
        cases hvalue : chainValue (some a) links with
        | none =>
            rw [hvalue] at happly
            rw [Grammar.result_fmap_error hmany happly]
            refine .divisionByZero (List.mem_append_right _ (List.mem_append_left _ ?_))
            exact divide_mem_of_chainValue_none hall hvalue
        | some n =>
            rw [hvalue] at happly hchain
            rw [Grammar.result_fmap_ok hmany happly]
            exact .matched _ rest' _ (List.append_assoc _ _ _).symm ⟨n, rfl, hchain⟩
      · rw [Grammar.fmap, Grammar.result_bind_error (Grammar.result_many_error hrounds)]
        exact .divisionByZero (List.mem_append_right _ hmem)
  | noMatch =>
      rw [Grammar.result_bind_noMatch hresult]
      exact .noMatch
  | divisionByZero hmem =>
      rw [Grammar.result_bind_error hresult]
      exact .divisionByZero hmem

/-! ## Atoms -/

/-- Behind a sum the closing parenthesis is tested, which keeps the value of the sum. -/
theorem result_closing (h : Ahead ts s words) (v : Value) :
    ((Grammar.andThen (.is (.str ")")) (.pure v)).read (streamOf ts) settings budget rule
        s).result =
      some (.ok (if words.head? = some .closing then .matched v (State.ahead s 1)
        else .noMatch)) := by
  cases words with
  | nil => exact Grammar.result_andThen_noMatch (result_is_nil settings budget rule h _)
  | cons x rest =>
      have htest := result_is_cons settings budget rule h ")"
      by_cases hx : x = .closing
      · subst hx
        exact Grammar.result_andThen_matched htest
      · have hsymbol : x.symbol ≠ ")" := by
          cases x with
          | number n => exact show numberClass ≠ ")" by decide
          | operator op => cases op <;> decide
          | opening => decide
          | closing => exact absurd rfl hx
        rw [if_neg hsymbol] at htest
        rw [Grammar.result_andThen_noMatch htest, if_neg]
        simpa using hx

/-- An atom is sound if the rule is where fewer words are ahead. -/
theorem sound_atom
    (hrule : ∀ b < bound, Sound ts b (rule "sum" []) (Phrase .sum)) :
    Sound ts bound (atomGrammar.read (streamOf ts) settings budget rule) (Phrase .atom) := by
  intro s words h hlen
  cases words with
  | nil =>
      rw [atomGrammar, Grammar.result_either_noMatch (result_is_nil settings budget rule h _),
        Grammar.between, Grammar.result_bind_noMatch (result_is_nil settings budget rule h _)]
      exact .noMatch
  | cons x rest =>
      have hnumber := result_is_cons settings budget rule h
        numberClass
      have hopening := result_is_cons settings budget rule h "("
      cases x with
      | number n =>
          rw [atomGrammar, Grammar.result_either_matched hnumber]
          exact .matched [.number n] rest _ rfl ⟨n, rfl, .number n⟩
      | operator op =>
          have hsymbols : (Lexeme.operator op).symbol ≠ numberClass ∧
              (Lexeme.operator op).symbol ≠ "(" := by cases op <;> decide
          rw [if_neg hsymbols.1] at hnumber
          rw [if_neg hsymbols.2] at hopening
          rw [atomGrammar, Grammar.result_either_noMatch hnumber, Grammar.between,
            Grammar.result_bind_noMatch hopening]
          exact .noMatch
      | closing =>
          rw [atomGrammar, Grammar.result_either_noMatch hnumber, Grammar.between,
            Grammar.result_bind_noMatch hopening]
          exact .noMatch
      | opening =>
          have hverdict := hrule rest.length hlen _ _ h.behind_cons le_rfl
          rw [atomGrammar, Grammar.result_either_noMatch hnumber, Grammar.between,
            Grammar.result_bind_matched hopening]
          generalize hresult : (rule "sum" [] (State.ahead s 1)).result = result at hverdict
          cases hverdict with
          | matched front rest' v hwords hphrase =>
              obtain ⟨n, rfl, hsentence⟩ := hphrase
              subst hwords
              rw [Grammar.result_bind_matched (g := .call "sum" []) hresult,
                result_closing h.behind_cons.behind, State.ahead_ahead, State.ahead_ahead]
              by_cases hclosing : rest'.head? = some .closing
              · obtain ⟨rest'', rfl⟩ := List.head?_eq_some_iff.mp hclosing
                have hlength : (Lexeme.opening :: (front ++ [.closing])).length =
                    1 + (front.length + 1) := by simp [Nat.add_comm 1]
                rw [if_pos hclosing, ← hlength]
                exact .matched _ rest'' _ (by simp) ⟨n, rfl, .group hsentence⟩
              · rw [if_neg hclosing]
                exact .noMatch
          | noMatch =>
              rw [Grammar.result_bind_noMatch (g := .call "sum" []) hresult]
              exact .noMatch
          | divisionByZero hmem =>
              rw [Grammar.result_bind_error (g := .call "sum" []) hresult]
              exact .divisionByZero (List.mem_cons_of_mem _ hmem)

/-! ## Levels -/

/-- Every level is as sound as the atoms are. -/
theorem sound_level (hatom : Sound ts bound (atomGrammar.read (streamOf ts) settings budget rule)
      (Phrase .atom)) (hbound : bound < budget) (level : Level) :
    Sound ts bound (level.grammar.read (streamOf ts) settings budget rule) (Phrase level) := by
  have hproduct := sound_chain (show Level.product ≠ .atom by decide) hatom hbound
  cases level with
  | atom => exact hatom
  | product => exact hproduct
  | sum => exact sound_chain (show Level.sum ≠ .atom by decide) hproduct hbound

/-- **Only phrases are read,** at every level, with as many rules inside each other as there are
words ahead. -/
theorem sound_grammar (ts : List Lexeme) (settings : Settings) {depth : Nat}
    (hdepth : depth < budget) (level : Level) :
    Sound ts depth
      (level.grammar.read (streamOf ts) settings budget
        (rules.reader (streamOf ts) settings budget depth)) (Phrase level) := by
  induction depth generalizing level with
  | zero => exact sound_level (sound_atom fun b hb => absurd hb (Nat.not_lt_zero b)) hdepth level
  | succ depth ih =>
      -- the rule is the sum with one rule less inside it
      have hsum := ih (Nat.lt_of_succ_lt hdepth) .sum
      exact sound_level (sound_atom fun b hb => hsum.mono (Nat.le_of_lt_succ hb)) hdepth level

end

end PullParse.Arithmetic
