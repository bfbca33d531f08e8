import PullParse.Proofs.Arithmetic.Completeness
import PullParse.Proofs.Arithmetic.Soundness
import PullParse.Proofs.Reading.Transparency

/-!
# The evaluator evaluates

The evaluator accepts the sentences of arithmetic and no other lists of words,
and gives them their value. Since every tree is written out as a sentence,
writing a tree out and evaluating the words gives the value of the tree.
-/

namespace PullParse.Arithmetic

variable {ts words : List Lexeme} {budget : Nat}

/-! ## The reading of the program -/

/-- The end of the input is where no words are ahead. -/
theorem result_eof (settings : Settings) (budget : Nat) (rule : String → List Value → Reader)
    {s : State} (h : Ahead ts s words) :
    (Grammar.eof.read (streamOf ts) settings budget rule s).result =
      some (.ok (if words = [] then .matched .null s else .noMatch)) := by
  rw [Grammar.eof, Grammar.result_satisfy rfl, h.streamOf_eq]
  cases words with
  | nil => rfl
  | cons x rest =>
      have hend : Parser.isEndClass x.token.cls = false := by
        rw [x.token_cls]
        rfl
      simp [hend]

theorem ahead_start (ts : List Lexeme) (u : Value) : Ahead ts ⟨0, u⟩ ts := ⟨le_rfl, rfl⟩

theorem State.ahead_start (u : Value) (n : Nat) : State.ahead ⟨0, u⟩ n = ⟨n, u⟩ := by
  simp [State.ahead]

/-- The reading of the program from the first word on. -/
def programResult (ts : List Lexeme) (settings : Settings) (budget : Nat) (u : Value) :
    Option (Except Fault Outcome) :=
  (programGrammar.reader rules (streamOf ts) settings budget ⟨0, u⟩).result

/-- A sentence is read to the end of the input. -/
theorem programResult_sentence (settings : Settings) {value : Option Int}
    (h : Sentence .sum ts value) (hbudget : ts.length < budget) (u : Value) :
    programResult ts settings budget u = some (answer value ⟨ts.length, u⟩) := by
  obtain ⟨depth, rfl⟩ := Nat.exists_eq_add_one.mpr (Nat.zero_lt_of_lt hbudget)
  have hstart : Ahead ts ⟨0, u⟩ (ts ++ []) := by
    rw [List.append_nil]
    exact ahead_start ts u
  have hsum := h.reads ts settings hbudget (Nat.le_of_lt_succ hbudget) _ []
    hstart (.nil .sum)
  rw [State.ahead_start] at hsum
  rw [programResult, Grammar.reader, programGrammar]
  cases value with
  | none => exact Grammar.result_bind_error (g := .call "sum" []) hsum
  | some n =>
      have hend : Ahead ts ⟨ts.length, u⟩ [] := by
        rw [← State.ahead_start]
        exact hstart.behind
      rw [Grammar.result_bind_matched (g := .call "sum" []) hsum]
      exact Grammar.result_andThen_matched (result_eof settings _ _ hend)

/-- The reading of the program matches with the value of a sentence, or does not match, or divides
by zero where a division stands among the words. -/
theorem programResult_cases (settings : Settings) (hbudget : ts.length < budget) (u : Value) :
    (∃ n, Sentence .sum ts (some n) ∧
        programResult ts settings budget u = some (.ok (.matched (.int n) ⟨ts.length, u⟩))) ∨
      programResult ts settings budget u = some (.ok .noMatch) ∨
      .operator .divide ∈ ts ∧
        programResult ts settings budget u = some (.error .divisionByZero) := by
  obtain ⟨depth, rfl⟩ := Nat.exists_eq_add_one.mpr (Nat.zero_lt_of_lt hbudget)
  have hstart := ahead_start ts u
  have hverdict := sound_grammar ts settings (Nat.lt_succ_self depth) .sum _ _ hstart
    (Nat.le_of_lt_succ hbudget)
  rw [programResult, Grammar.reader, programGrammar]
  generalize hresult : ((Level.grammar .sum).read (streamOf ts) settings (depth + 1)
    (rules.reader (streamOf ts) settings (depth + 1) depth) ⟨0, u⟩).result = result at hverdict
  cases hverdict with
  | @matched front rest v hwords hphrase =>
      obtain ⟨n, rfl, hsentence⟩ := hphrase
      subst hwords
      rw [Grammar.result_bind_matched (g := .call "sum" []) hresult]
      have heof := result_eof settings (depth + 1)
        (rules.reader (streamOf (front ++ rest)) settings (depth + 1) (depth + 1)) hstart.behind
      by_cases hrest : rest = []
      · left
        subst hrest
        simp only [List.append_nil] at heof ⊢
        refine ⟨n, hsentence, ?_⟩
        rw [State.ahead_start] at heof ⊢
        exact Grammar.result_andThen_matched heof
      · right; left
        rw [if_neg hrest] at heof
        exact Grammar.result_andThen_noMatch heof
  | noMatch =>
      right; left
      exact Grammar.result_bind_noMatch (g := .call "sum" []) hresult
  | divisionByZero hmem =>
      right; right
      exact ⟨hmem, Grammar.result_bind_error (g := .call "sum" []) hresult⟩

/-! ## The run of the program -/

/-- What evaluating a list of words from its first word on comes to. -/
structure Evaluates (ts : List Lexeme) (u : Value) (result : Option (Except Fault Outcome)) :
    Prop where
  /-- There is a match exactly for the sentences with a value, and it is that value. -/
  matches_iff : ∀ v, (∃ s', result = some (.ok (.matched v s'))) ↔
    ∃ n, v = .int n ∧ Sentence .sum ts (some n)
  /-- A sentence without a value divides by zero. -/
  raises : Sentence .sum ts none → result = some (.error .divisionByZero)
  /-- What is no sentence does not match, and without a division in it ends without a fault. -/
  misses : (¬∃ value, Sentence .sum ts value) →
    (∀ v s', result ≠ some (.ok (.matched v s'))) ∧
      (.operator .divide ∉ ts → result = some (.ok .noMatch))
  /-- There is an end, and a division by zero is the only fault. -/
  ends : (∃ n, result = some (.ok (.matched (.int n) ⟨ts.length, u⟩))) ∨
    result = some (.ok .noMatch) ∨ result = some (.error .divisionByZero)
  /-- A tree that is written out has its own value. -/
  tree : ∀ tree : Tree, tree.render .sum = ts → result = some (answer tree.value ⟨ts.length, u⟩)

theorem programResult_evaluates (settings : Settings) (hbudget : ts.length < budget) (u : Value) :
    Evaluates ts u (programResult ts settings budget u) := by
  have hsentence := fun value (h : Sentence .sum ts value) =>
    programResult_sentence settings h hbudget u
  have hcases := programResult_cases settings hbudget u
  generalize programResult ts settings budget u = result at hsentence hcases
  refine ⟨?_, hsentence none, ?_, ?_, ?_⟩
  · intro v
    constructor
    · rintro ⟨s', rfl⟩
      rcases hcases with ⟨n, hn, hresult⟩ | hresult | ⟨_, hresult⟩
      · cases hresult
        exact ⟨n, rfl, hn⟩
      · cases hresult
      · cases hresult
    · rintro ⟨n, rfl, hn⟩
      exact ⟨_, hsentence _ hn⟩
  · intro hnone
    rcases hcases with ⟨n, hn, _⟩ | rfl | ⟨hmem, rfl⟩
    · exact absurd ⟨_, hn⟩ hnone
    · exact ⟨fun v s' h => (nomatch h), fun _ => rfl⟩
    · exact ⟨fun v s' h => (nomatch h), fun hnot => absurd hmem hnot⟩
  · rcases hcases with ⟨n, _, hresult⟩ | hresult | ⟨_, hresult⟩
    · exact .inl ⟨n, hresult⟩
    · exact .inr (.inl hresult)
    · exact .inr (.inr hresult)
  · rintro tree rfl
    exact hsentence _ (tree.sentence_render .sum)

/-- **The evaluator evaluates.** On every list of words, however much of it has been pulled
before, the program matches the sentences alone, with their value; it divides by zero where a
sentence does, and a tree that is written out evaluates to itself. A budget that exceeds the number
of words is always enough. -/
theorem program_evaluates (ts : List Lexeme) (u : Value) (budget : Nat)
    (hbudget : ts.length < budget) (ctx : Context)
    (hctx : ctx.cache.Reached (producerOf (ts.map Lexeme.token))) :
    Evaluates ts u ((program ⟨0, u⟩).run budget ctx).result? := by
  have hsrc : (producerOf (ts.map Lexeme.token)).Delivers (streamOf ts) :=
    Producer.delivers_ofTokens _
  have hstart : State.InRange ⟨0, u⟩ ctx.cache := State.inRange_start _ _
  have hrules : ∀ name args, (rules name args).Plain := fun _ _ => plain_sum
  rw [program_eq,
    (Grammar.reads hsrc hrules plain_program (hctx.holds hsrc) hstart).result?_eq]
  exact programResult_evaluates _ hbudget u

/-- The words of `7 - (2 + 3) / 2`. -/
def differenceTree : Tree :=
  .node .minus (.number 7) (.node .divide (.node .plus (.number 2) (.number 3)) (.number 2))

/-- The tree is written out with parentheses around the inner sum alone, and evaluates to five. -/
theorem program_evaluates_difference :
    (differenceTree.render .sum).length < 10 ∧
      (Cache.fresh (producerOf ((differenceTree.render .sum).map Lexeme.token))).Reached
        (producerOf ((differenceTree.render .sum).map Lexeme.token)) ∧
      ((program ⟨0, .null⟩).run 10 (.opened
        (producerOf ((differenceTree.render .sum).map Lexeme.token)) Session.fresh)).result? =
          some (.ok (.matched (.int 5) ⟨9, .null⟩)) := by
  have hlength : (differenceTree.render .sum).length < 10 := by decide
  have hreached : (Cache.fresh (producerOf ((differenceTree.render .sum).map
      Lexeme.token))).Reached (producerOf ((differenceTree.render .sum).map Lexeme.token)) :=
    ⟨[], rfl⟩
  refine ⟨hlength, hreached, ?_⟩
  exact (program_evaluates (differenceTree.render .sum) .null 10 hlength (.opened _ Session.fresh)
    hreached).tree differenceTree rfl

end PullParse.Arithmetic
