import PullParse.Proofs.Nesting.Grammar
import PullParse.Proofs.Nesting.Words

/-!
# Readings of brackets

What the parts of the grammar give on the words ahead of a position. The user
data is a stack, a tuple or a list, and stays what it is: the bracket that closes
a pair gives back the very data that the pair was opened on. Repeating the pairs
reads words until none of the grammar stands ahead, and a pair is read where the
words behind its opening bracket are a balanced word and a closing bracket.
-/

namespace PullParse

namespace Nesting

/-! ## The stack -/

/-- User data that is a stack, with its elements. -/
inductive Stacked : Value → List Value → Prop
  | tuple (xs : List Value) : Stacked (.tuple xs) xs
  | list (xs : List Value) : Stacked (.list xs) xs

variable {u : Value} {xs : List Value}

theorem Stacked.stackSize_eq (h : Stacked u xs) : stackSize u = .ok xs.length := by
  cases h <;> rfl

/-- What is pushed comes off again, and leaves the data as it was. -/
theorem Stacked.push (h : Stacked u xs) (v : Value) :
    ∃ u', Stacked u' (v :: xs) ∧ (Stack.ofValue u).bind (Stack.push v) = .ok u' ∧
      (Stack.ofValue u').bind Stack.pop = .ok (v, u) := by
  cases h with
  | tuple => exact ⟨_, .tuple _, rfl, rfl⟩
  | list => exact ⟨_, .list _, rfl, rfl⟩

/-! ## Single brackets -/

section

variable {ts rest : List Token} {settings : Settings} {budget : Nat}
variable {rule : String → List Value → Reader} {i : Nat} {token : Token}

theorem ofList_of_drop (h : ts.drop i = token :: rest) : TokenStream.ofList ts i = token := by
  have hget : ts[i]? = some token := by rw [← List.head?_drop, h, List.head?_cons]
  rw [TokenStream.ofList, hget, Option.getD_some]

/-- A text is matched where it is the class of the first word ahead. -/
theorem result_is_text (settings : Settings) (budget : Nat) (rule : String → List Value → Reader)
    (u : Value) {text : String} (h : ts.drop i = token :: rest) (htext : token.cls = .str text) :
    ((Grammar.is (.str text)).read (.ofList ts) settings budget rule ⟨i, u⟩).result =
      some (.ok (.matched token.value ⟨(i + 1 : Nat), u⟩)) := by
  have htoken : TokenStream.ofList ts i = token := ofList_of_drop h
  have hequal : token.cls.equal (.str text) = true := Value.equal_str_iff.mpr htext
  have hend : token.isEof = false := by rw [Token.isEof, htext]
  rw [Grammar.is, Grammar.isWith, Grammar.result_satisfy rfl]
  simp [htoken, hequal, hend]

theorem result_is_noMatch (settings : Settings) (budget : Nat)
    (rule : String → List Value → Reader) (u : Value) {text : String}
    (h : ∀ token, (ts.drop i).head? = some token → token.cls ≠ .str text) :
    ((Grammar.is (.str text)).read (.ofList ts) settings budget rule ⟨i, u⟩).result =
      some (.ok .noMatch) := by
  have hequal : (TokenStream.ofList ts i).cls.equal (.str text) = false := by
    rw [TokenStream.ofList, ← List.head?_drop]
    cases hhead : (ts.drop i).head? with
    | none => simp [Token.eof, Value.equal]
    | some token => exact Bool.eq_false_iff.mpr fun heq => h token hhead (Value.equal_str_iff.mp heq)
  rw [Grammar.is, Grammar.isWith, Grammar.result_satisfy rfl]
  simp [hequal]

/-- The opening bracket knows the size of the stack. -/
theorem result_open (hu : Stacked u xs) :
    (openGrammar.read (.ofList ts) settings budget rule ⟨i, u⟩).result =
      ((Grammar.andThen (.is openingClass) (.pushUserData (.int (xs.length + 1)))).read (.ofList ts)
        settings budget rule ⟨i, u⟩).result := by
  have hget : (Grammar.getUserData.read (.ofList ts) settings budget rule ⟨i, u⟩).result =
      some (.ok (.matched u ⟨i, u⟩)) := rfl
  rw [openGrammar, Grammar.result_bind_matched hget,
    Grammar.result_ofAction_ok (Action.result_bind_ok (x := .ofExcept _) hu.stackSize_eq _)]
  rfl

theorem result_open_matched {u' : Value} (hu : Stacked u xs) (h : ts.drop i = token :: rest)
    (hopening : token.cls = openingClass)
    (hpush : (Stack.ofValue u).bind (Stack.push (.int (xs.length + 1))) = .ok u') :
    (openGrammar.read (.ofList ts) settings budget rule ⟨i, u⟩).result =
      some (.ok (.matched (.int (xs.length + 1)) ⟨(i + 1 : Nat), u'⟩)) := by
  have hbracket := result_is_text settings budget rule u h hopening
  rw [result_open hu]
  exact (Grammar.result_andThen_matched hbracket).trans (Grammar.result_pushUserData hpush)

theorem result_open_noMatch (hu : Stacked u xs)
    (h : ∀ token, (ts.drop i).head? = some token → token.cls ≠ openingClass) :
    (openGrammar.read (.ofList ts) settings budget rule ⟨i, u⟩).result = some (.ok .noMatch) := by
  rw [result_open hu]
  exact Grammar.result_andThen_noMatch (result_is_noMatch settings budget rule u h)

theorem result_close_matched {u' v : Value} (h : ts.drop i = token :: rest)
    (hclosing : token.cls = closingClass) (hpop : (Stack.ofValue u').bind Stack.pop = .ok (v, u)) :
    (closeGrammar.read (.ofList ts) settings budget rule ⟨i, u'⟩).result =
      some (.ok (.matched v ⟨(i + 1 : Nat), u⟩)) :=
  (Grammar.result_andThen_matched (result_is_text settings budget rule u' h hclosing)).trans
    (Grammar.result_popUserData hpop)

theorem result_close_noMatch
    (h : ∀ token, (ts.drop i).head? = some token → token.cls ≠ closingClass) :
    (closeGrammar.read (.ofList ts) settings budget rule ⟨i, u⟩).result = some (.ok .noMatch) :=
  Grammar.result_andThen_noMatch (result_is_noMatch settings budget rule u h)

end

/-! ## Bracket pairs -/

/-- What a bracket pair gives from a position on, with a stack of some size: the depth inside it,
and the user data unchanged. Where no pair is complete it does not match. -/
inductive PairReading (i : Nat) (u : Value) (size : Nat) :
    List Token → Option (Except Fault Outcome) → Prop
  | pair {opening closing : Token} {inner rest : List Token}
      (hopening : opening.cls = openingClass) (hinner : Balanced inner)
      (hclosing : closing.cls = closingClass) :
      PairReading i u size (opening :: (inner ++ closing :: rest))
        (some (.ok (.matched (.int (size + (1 + depth inner)))
          ⟨(i + (inner.length + 2) : Nat), u⟩)))
  | stuck {words : List Token} (h : Stuck words) : PairReading i u size words (some (.ok .noMatch))

/-- A reader reads the bracket pairs wherever less than some number of words are ahead. -/
def ReadsPairs (ts : List Token) (bound : Nat) (r : Reader) : Prop :=
  ∀ (i : Nat) (u : Value) (xs : List Value), Stacked u xs → (ts.drop i).length < bound →
    PairReading i u xs.length (ts.drop i) (r ⟨i, u⟩).result

/-- The greatest of a depth and the depths of the pairs in a word, on a stack of some size. -/
def reached (size : Nat) (j : Int) (word : List Token) : Int :=
  if word = [] then j else max j (size + depth word)

theorem reached_pair {size : Nat} {j : Int} {opening closing : Token} {inner rest : List Token}
    (hopening : opening.cls = openingClass) (hinner : Balanced inner)
    (hclosing : closing.cls = closingClass) :
    reached size j (opening :: (inner ++ closing :: rest)) =
      reached size (max j (size + (1 + depth inner))) rest := by
  have hdepth : depth (opening :: (inner ++ closing :: rest)) = max (1 + depth inner) (depth rest) :=
    Balanced.depth_pair hopening hinner hclosing
  have hpos := depth_nonneg inner
  rw [reached, if_neg (List.cons_ne_nil _ _), hdepth, reached]
  split
  · subst rest
    rw [depth]
    omega
  · omega

section

variable {ts : List Token} {bound : Nat} {r : Reader}

/-- What the rounds of the pairs give: the longest balanced word ahead, and the depths in it. -/
structure RoundsReading (i : Nat) (u : Value) (size : Nat) (words : List Token)
    (result : Option (Except Fault (List Value × State))) (word rest : List Token)
    (values : List Value) : Prop where
  words_eq : words = word ++ rest
  balanced : Balanced word
  stuck : Stuck rest
  result_eq : result = some (.ok (values, ⟨(i + word.length : Nat), u⟩))
  deepest_eq : ∀ j, deepest (.int j) (.list values) = .int (reached size j word)

/-- Repeating the pairs reads the longest balanced word ahead. -/
theorem ReadsPairs.rounds (h : ReadsPairs ts bound r) (name : String) (guard : Bool)
    {i left : Nat} (hu : Stacked u xs) (hbound : (ts.drop i).length < bound)
    (hleft : (ts.drop i).length < left) :
    ∃ word rest values, RoundsReading i u xs.length (ts.drop i)
      (Reader.rounds name guard r left ⟨i, u⟩).result word rest values := by
  induction left generalizing i with
  | zero => exact absurd hleft (Nat.not_lt_zero _)
  | succ left ih =>
      have hpair := h i u xs hu hbound
      generalize hwords : ts.drop i = words, hresult : (r ⟨i, u⟩).result = result at hpair
      cases hpair with
      | stuck hstuck =>
          exact ⟨[], words, [], rfl, .nil, hstuck, Reader.result_rounds_noMatch hresult,
            fun j => rfl⟩
      | @pair opening closing inner rest hopening hinner hclosing =>
          have hrest : ts.drop (i + (inner.length + 2)) = rest := by
            rw [← List.drop_drop, hwords, List.drop_succ_cons, ← List.drop_drop, List.drop_left]
            rfl
          have hlength : (ts.drop i).length = inner.length + (rest.length + 2) := by
            rw [hwords]
            simp [Nat.add_assoc]
          obtain ⟨word, rest', values, hround⟩ := ih (i := i + (inner.length + 2))
            (by rw [hrest]; omega) (by rw [hrest]; omega)
          rw [hrest] at hround
          have hmoved : ((i + (inner.length + 2) : Nat) : Int) ≠ (i : Int) := by omega
          refine ⟨opening :: (inner ++ closing :: word), rest',
            .int (xs.length + (1 + depth inner)) :: values, ?_,
            .pair hopening hinner hclosing hround.balanced, hround.stuck, ?_, fun j => ?_⟩
          · rw [hround.words_eq]
            simp
          · rw [Reader.result_rounds_matched hresult hmoved hround.result_eq]
            have hend : i + (inner.length + 2) + word.length =
                i + (opening :: (inner ++ closing :: word)).length := by
              simp only [List.length_cons, List.length_append]
              omega
            rw [hend]
          · rw [reached_pair hopening hinner hclosing]
            exact hround.deepest_eq _

variable {settings : Settings} {budget : Nat} {rule : String → List Value → Reader}

/-- The repetition of the pairs as a grammar. -/
theorem ReadsPairs.many (settings : Settings) (h : ReadsPairs ts bound (rule "nested" []))
    {i : Nat} (hu : Stacked u xs) (hbound : (ts.drop i).length < bound)
    (hbudget : (ts.drop i).length < budget) :
    ∃ word rest values, ts.drop i = word ++ rest ∧ Balanced word ∧ Stuck rest ∧
      ((Grammar.many (.call "nested" [])).read (.ofList ts) settings budget rule ⟨i, u⟩).result =
        some (.ok (.matched (.list values) ⟨(i + word.length : Nat), u⟩)) ∧
      ∀ j, deepest (.int j) (.list values) = .int (reached xs.length j word) := by
  obtain ⟨word, rest, values, hround⟩ :=
    h.rounds "many" settings.guard.truth hu hbound hbudget
  exact ⟨word, rest, values, hround.words_eq, hround.balanced, hround.stuck,
    Grammar.result_many_ok (g := .call "nested" []) hround.result_eq, hround.deepest_eq⟩

/-- A bracket pair reads the pairs if the rule does so for one word less. -/
theorem ReadsPairs.pair (h : ReadsPairs ts bound (rule "nested" []))
    (hbudget : ts.length < budget) :
    ReadsPairs ts (bound + 1) (pairGrammar.read (.ofList ts) settings budget rule) := by
  intro i u xs hu hbound
  by_cases hhead : ∀ token, (ts.drop i).head? = some token → token.cls ≠ openingClass
  · rw [pairGrammar, Grammar.result_bind_noMatch (result_open_noMatch hu hhead)]
    exact .stuck (.of_head hhead)
  push Not at hhead
  obtain ⟨opening, hopening?, hopening⟩ := hhead
  obtain ⟨words, hwords⟩ := List.head?_eq_some_iff.mp hopening?
  obtain ⟨u', hu', hpush, hpop⟩ := hu.push (.int (xs.length + 1))
  have hbehind : ts.drop (i + 1) = words := by
    rw [← List.drop_drop, hwords, List.drop_succ_cons, List.drop_zero]
  have hlength : (ts.drop i).length = (ts.drop (i + 1)).length + 1 := by
    rw [hwords, hbehind, List.length_cons]
  have hinside : (ts.drop (i + 1)).length < bound := by omega
  have hle : (ts.drop (i + 1)).length ≤ ts.length := (List.drop_sublist _ _).length_le
  -- behind the opening bracket the longest balanced word is read, on a stack that is one longer
  obtain ⟨inner, rest, values, hinner, hbalanced, hstuck, hmany, hdeepest⟩ :=
    h.many settings hu' hinside (Nat.lt_of_le_of_lt hle hbudget)
  rw [hbehind] at hinner
  subst hinner
  have hdrop : ts.drop (i + 1 + inner.length) = rest := by
    rw [← List.drop_drop, hbehind, List.drop_left]
  rw [pairGrammar, Grammar.result_bind_matched (result_open_matched hu hwords hopening hpush),
    Grammar.result_bind_matched hmany, hwords]
  by_cases hclose : ∀ token, rest.head? = some token → token.cls ≠ closingClass
  · rw [Grammar.fmap, Grammar.result_bind_noMatch (result_close_noMatch (by rw [hdrop]; exact hclose))]
    exact .stuck (.of_unclosed hbalanced hstuck hclose)
  push Not at hclose
  obtain ⟨closing, hclosing?, hclosing⟩ := hclose
  obtain ⟨rest, rfl⟩ := List.head?_eq_some_iff.mp hclosing?
  rw [Grammar.result_fmap_ok (result_close_matched hdrop hclosing hpop) rfl]
  have hvalue : deepest (.int (xs.length + 1)) (.list values) =
      .int (xs.length + (1 + depth inner)) := by
    rw [hdeepest, reached]
    have hpos := depth_nonneg inner
    split
    · subst inner
      simp [depth]
    · rw [List.length_cons]
      congr 1
      omega
  have hend : i + 1 + inner.length + 1 = i + (inner.length + 2) := by omega
  rw [hvalue, hend]
  exact .pair hopening hbalanced hclosing

/-- The rule reads the pairs, as deep as it may go. -/
theorem readsPairs_rule (settings : Settings) (hbudget : ts.length < budget) (depth : Nat) :
    ReadsPairs ts depth (rules.reader (.ofList ts) settings budget depth "nested" []) := by
  induction depth with
  | zero => exact fun i u xs hu hbound => absurd hbound (Nat.not_lt_zero _)
  | succ depth ih => exact ih.pair hbudget

end

end Nesting

end PullParse
