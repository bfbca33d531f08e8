import PullParse.Proofs.Arithmetic.Readings

/-!
# Every sentence is read

A phrase that cannot be continued by what follows it is read to its end, with
its value. The repetition of a chain is greedy, but it never takes too much: what
may follow a phrase of a level is no operator that stands in one.
-/

namespace PullParse.Arithmetic

/-- What the reading of a phrase with this value gives. -/
def answer : Option Int → State → Except Fault Outcome
  | some n, s => .ok (.matched (.int n) s)
  | none, _ => .error .divisionByZero

/-- Words that may follow a phrase of a level: no operator of the level or above goes first. -/
def Follows (level : Level) (rest : List Lexeme) : Prop :=
  ∀ op, rest.head? = some (.operator op) → Tree.fits op level = false

namespace Follows

variable {level : Level} {rest : List Lexeme}

theorem nil (level : Level) : Follows level [] := fun _ h => nomatch h

theorem closing (level : Level) (rest : List Lexeme) : Follows level (.closing :: rest) :=
  fun _ h => nomatch h

/-- What follows a chain follows its last operand. -/
theorem operand (h : Follows level rest) : Follows level.operand rest := by
  intro op hop
  have hfits := h op hop
  cases level with
  | sum => simp [Tree.fits] at hfits
  | product => rfl
  | atom => rfl

/-- An operator of a level follows its operands. -/
theorem operator {op : Operator} (hlevel : level ≠ .atom) (hop : op.level = level)
    (rest : List Lexeme) : Follows level.operand (.operator op :: rest) := by
  intro op' hop'
  cases hop'
  cases level with
  | sum => simp [Level.operand, Tree.fits, hop]
  | product => rfl
  | atom => exact absurd rfl hlevel

/-- No operator of the level goes first. -/
theorem level_ne (h : Follows level rest) (op : Operator)
    (hop : rest.head? = some (.operator op)) : op.level ≠ level := by
  intro hlevel
  have hfits := h op hop
  cases level with
  | sum => simp [Tree.fits] at hfits
  | product => simp [Tree.fits, hlevel] at hfits
  | atom => exact op.level_ne_atom hlevel

/-- What follows the operand of a link: the next link, or what follows the chain. -/
theorem links (h : Follows level rest) (hlevel : level ≠ .atom) {links : List Link}
    (hops : ∀ link ∈ links, link.op.level = level) :
    Follows level.operand (links.flatMap Link.lexemes ++ rest) := by
  cases links with
  | nil => exact h.operand
  | cons link links => exact operator hlevel (hops link List.mem_cons_self) _

end Follows

section

variable {ts rest : List Lexeme} {settings : Settings} {budget : Nat}
variable {rule : String → List Value → Reader} {level : Level} {operand : Grammar}

/-- A reader reads a phrase wherever its words stand with something behind them that may follow. -/
def ReadsPhrase (ts : List Lexeme) (level : Level) (r : Reader) (words : List Lexeme)
    (value : Option Int) : Prop :=
  ∀ (s : State) (rest : List Lexeme), Ahead ts s (words ++ rest) → Follows level rest →
    (r s).result = some (answer value (State.ahead s words.length))

/-- A step reads a link, or fails with its operand. -/
theorem result_step_link (hlevel : level ≠ .atom) {link : Link} (hop : link.op.level = level)
    (hlink : ReadsPhrase ts level.operand (operand.read (streamOf ts) settings budget rule)
      link.words link.value)
    {s : State} (h : Ahead ts s (link.lexemes ++ rest)) (hrest : Follows level.operand rest) :
    ((stepGrammar operand level.first level.others).read (streamOf ts) settings budget rule
        s).result =
      some (if link.value.isSome then
          .ok (.matched link.step (State.ahead s link.lexemes.length))
        else .error .divisionByZero) := by
  have hoperand := hlink _ _ h.behind_cons hrest
  rw [State.ahead_ahead, Nat.add_comm] at hoperand
  rw [result_step_operator hlevel hop h]
  cases hvalue : link.value with
  | none =>
      rw [hvalue] at hoperand
      exact Grammar.result_bind_error hoperand
  | some n =>
      rw [hvalue] at hoperand
      have hstep : link.step = .pair (.str link.op.symbol) (.int n) := by
        rw [Link.step, hvalue]
        rfl
      rw [hstep]
      exact Grammar.result_fmap_ok hoperand rfl

/-- The rounds of a chain read all its links, and break off at one without a value. -/
theorem result_rounds_links (name : String) (guard : Bool) (hlevel : level ≠ .atom)
    {links : List Link}
    (hops : ∀ link ∈ links, link.op.level = level)
    (hlinks : ∀ link ∈ links, ReadsPhrase ts level.operand
      (operand.read (streamOf ts) settings budget rule) link.words link.value)
    {left : Nat} (hleft : links.length < left) {s : State}
    (h : Ahead ts s (links.flatMap Link.lexemes ++ rest)) (hrest : Follows level rest) :
    (Reader.rounds name guard ((stepGrammar operand level.first level.others).read (streamOf ts)
        settings budget rule) left s).result =
      some (if links.all fun link => link.value.isSome then
          .ok (links.map Link.step, State.ahead s (links.flatMap Link.lexemes).length)
        else .error .divisionByZero) := by
  induction links generalizing left s with
  | nil =>
      obtain ⟨left, rfl⟩ := Nat.exists_eq_add_one.mpr hleft
      have hmiss := result_step_noMatch settings budget rule operand hlevel h hrest.level_ne
      rw [Reader.result_rounds_noMatch hmiss]
      simp
  | cons link links ih =>
      obtain ⟨left, rfl⟩ := Nat.exists_eq_add_one.mpr (Nat.zero_lt_of_lt hleft)
      have hops' := fun x hx => hops x (List.mem_cons_of_mem link hx)
      rw [List.flatMap_cons, List.append_assoc] at h
      have hstep := result_step_link hlevel (hops link List.mem_cons_self)
        (hlinks link List.mem_cons_self) h (hrest.links hlevel hops')
      have hnext := ih hops' (fun x hx => hlinks x (List.mem_cons_of_mem link hx))
        (Nat.lt_of_succ_lt_succ hleft) h.behind
      rw [State.ahead_ahead, ← List.length_append, ← List.flatMap_cons] at hnext
      cases hvalue : link.value with
      | none =>
          rw [hvalue] at hstep
          rw [Reader.result_rounds_error hstep]
          simp [hvalue]
      | some n =>
          rw [hvalue] at hstep
          have hmoved : (State.ahead s link.lexemes.length).position ≠ s.position := by
            simp only [State.ahead, Link.lexemes, List.length_cons]
            omega
          by_cases hall : (links.all fun link => link.value.isSome) = true
          · rw [if_pos hall] at hnext
            rw [Reader.result_rounds_matched hstep hmoved hnext]
            simp [hvalue, hall]
          · rw [if_neg hall] at hnext
            rw [Reader.result_rounds_matched_error hstep hmoved hnext]
            simp [hvalue, hall]

/-- A chain reads its first operand and its links. -/
theorem readsPhrase_chain (hlevel : level ≠ .atom) {words : List Lexeme} {value : Option Int}
    {links : List Link} (hops : ∀ link ∈ links, link.op.level = level)
    (hfirst : ReadsPhrase ts level.operand (operand.read (streamOf ts) settings budget rule)
      words value)
    (hlinks : ∀ link ∈ links, ReadsPhrase ts level.operand
      (operand.read (streamOf ts) settings budget rule) link.words link.value)
    (hbudget : links.length < budget) :
    ReadsPhrase ts level
      ((chainGrammar operand level.first level.others).read (streamOf ts) settings budget rule)
      (words ++ links.flatMap Link.lexemes) (chainValue value links) := by
  intro s rest h hrest
  rw [List.append_assoc] at h
  have hoperand := hfirst s _ h (hrest.links hlevel hops)
  rw [chainGrammar]
  cases value with
  | none =>
      rw [chainValue_none]
      exact Grammar.result_bind_error hoperand
  | some a =>
      have hrounds := result_rounds_links "many" settings.guard.truth hlevel
        hops hlinks hbudget h.behind hrest
      rw [Grammar.result_bind_matched hoperand]
      by_cases hall : (links.all fun link => link.value.isSome) = true
      · rw [if_pos hall, State.ahead_ahead, ← List.length_append] at hrounds
        have happly := applySteps_step a hall
        cases hvalue : chainValue (some a) links with
        | none =>
            rw [hvalue] at happly
            exact Grammar.result_fmap_error (Grammar.result_many_ok hrounds) happly
        | some n =>
            rw [hvalue] at happly
            exact Grammar.result_fmap_ok (Grammar.result_many_ok hrounds) happly
      · rw [if_neg hall] at hrounds
        rw [chainValue_of_operand_none _ (Bool.eq_false_iff.mpr hall)]
        exact Grammar.result_bind_error (Grammar.result_many_error hrounds)

/-! ## Atoms -/

theorem readsPhrase_number (n : Int) :
    ReadsPhrase ts .atom (atomGrammar.read (streamOf ts) settings budget rule) [.number n]
      (some n) := by
  intro s rest h _
  have hnumber := result_is_cons settings budget rule h
    numberClass
  exact Grammar.result_either_matched hnumber

/-- A sum in parentheses is an atom, if the rule reads the sum. -/
theorem readsPhrase_group {words : List Lexeme} {value : Option Int}
    (hsum : ReadsPhrase ts .sum (rule "sum" []) words value) :
    ReadsPhrase ts .atom (atomGrammar.read (streamOf ts) settings budget rule)
      (.opening :: (words ++ [.closing])) value := by
  intro s rest h _
  rw [List.cons_append, List.append_assoc] at h
  have hnumber := result_is_cons settings budget rule h
    numberClass
  have hopening := result_is_cons settings budget rule h "("
  have hinner := hsum _ _ h.behind_cons (.closing .sum rest)
  have hclosing := result_is_cons settings budget rule
    h.behind_cons.behind ")"
  rw [State.ahead_ahead] at hinner hclosing
  rw [State.ahead_ahead] at hclosing
  have hlength : (Lexeme.opening :: (words ++ [.closing])).length = 1 + words.length + 1 := by
    simp [Nat.add_comm 1]
  rw [hlength, atomGrammar, Grammar.result_either_noMatch hnumber, Grammar.between,
    Grammar.result_bind_matched hopening]
  cases value with
  | none => exact Grammar.result_bind_error (g := .call "sum" []) hinner
  | some n =>
      rw [Grammar.result_bind_matched (g := .call "sum" []) hinner,
        Grammar.result_andThen_matched hclosing]
      rfl

/-! ## Sentences -/

theorem length_le_lexemes (links : List Link) :
    links.length ≤ (links.flatMap Link.lexemes).length := by
  induction links with
  | nil => exact Nat.le_refl _
  | cons link links ih =>
      rw [List.flatMap_cons, List.length_append, Link.lexemes, List.length_cons, List.length_cons]
      omega

theorem words_length_le_lexemes {links : List Link} {link : Link} (h : link ∈ links) :
    link.words.length ≤ (links.flatMap Link.lexemes).length := by
  have hsub : link.lexemes.Sublist (links.flatMap Link.lexemes) :=
    List.sublist_flatten_of_mem (List.mem_map_of_mem h)
  exact le_trans (Nat.le_succ _) hsub.length_le

/-- **Every sentence is read to its end,** with its value, where nothing behind it could continue
it. Every pair of parentheses takes one more of the rules inside each other. -/
theorem Sentence.reads (ts : List Lexeme) (settings : Settings) {words : List Lexeme}
    {value : Option Int} (h : Sentence level words value) (hbudget : words.length < budget)
    {depth : Nat} (hdepth : words.length ≤ depth) :
    ReadsPhrase ts level
      (level.grammar.read (streamOf ts) settings budget
        (rules.reader (streamOf ts) settings budget depth)) words value := by
  induction h generalizing depth with
  | number n => exact readsPhrase_number n
  | @group words value _ ih =>
      rw [List.length_cons, List.length_append] at hbudget hdepth
      obtain ⟨depth, rfl⟩ := Nat.exists_eq_add_one.mpr
        (Nat.lt_of_lt_of_le (Nat.succ_pos _) hdepth)
      -- the sum between the parentheses is one rule deeper
      exact readsPhrase_group (ih (by omega) (by omega))
  | @chain level words value links hlevel _ hops _ ihfirst ihlinks =>
      rw [List.length_append] at hbudget hdepth
      rw [Level.grammar_eq_chain hlevel]
      have hcount := length_le_lexemes links
      refine readsPhrase_chain hlevel hops (ihfirst (by omega) (by omega)) ?_ (by omega)
      intro link hlink
      have hwords := words_length_le_lexemes hlink
      exact ihlinks link hlink (by omega) (by omega)

end

end PullParse.Arithmetic
