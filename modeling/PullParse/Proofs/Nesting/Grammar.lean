import PullParse.Nesting
import PullParse.Proofs.Correspondence.Combinators
import PullParse.Proofs.Grammar.Derived
import PullParse.Proofs.Reading.Results

/-!
# Nesting as a grammar

The bracket pairs are a grammar with one rule, the pair, and the program repeats
that rule. An opening bracket puts its depth in front of the user data, and a
closing one takes the front off again, so both know the user data that they leave.
-/

namespace PullParse.Nesting

/-- An opening bracket. The size of the stack is found out before the token is looked at. -/
def openGrammar : Grammar :=
  .bind .getUserData fun data => .ofAction do
    return .sequence (.is openingClass) (.pushUserData (.int ((← .ofExcept (stackSize data)) + 1))) []

def closeGrammar : Grammar := .sequence (.is closingClass) .popUserData []

def pairGrammar : Grammar :=
  .bind openGrammar fun depth => .bind (.many (.call "nested" [])) fun depths =>
    .fmap (fun _ => return deepest depth depths) closeGrammar

/-- The only rule is the bracket pair. -/
def rules : Rules := fun _ _ => pairGrammar

def programGrammar : Grammar :=
  .bind (.many (.call "nested" [])) fun depths =>
    .fmap (fun _ => return deepest (.int 0) depths) .getUserData

/-! ## The parser of the grammar -/

variable {rule : String → List Value → Parser}

/-- An opening bracket that pushes a depth. -/
theorem toParser_pushing (depth : Value) :
    (Grammar.sequence (.is openingClass) (.pushUserData depth) []).toParser rule =
      .sequence (.is openingClass) (.pushUserData depth) [] := by
  show Parser.andThen _ _ = _
  rw [Grammar.toParser_pushUserData]
  rfl

theorem toParser_open : openGrammar.toParser rule = openBracket := by
  funext s
  ext budget ctx
  rw [openGrammar, Grammar.toParser]
  simp only [Grammar.toParser_ofAction_bind, toParser_pushing]
  unfold openBracket
  show ((Parser.ofAction _ s).run budget ctx) = _
  cases stackSize s.userData with
  | ok size => rfl
  | error fault => rfl

theorem toParser_pair : pairGrammar.toParser rule = pair (rule "nested" []) := by
  rw [pairGrammar, Grammar.toParser, toParser_open]
  rfl

/-- The rule unfolds as the recursive parser does. -/
theorem parser_rules (depth : Nat) (name : String) (args : List Value) :
    rules.parser depth name args = Parser.unfold pair depth := by
  induction depth generalizing name args with
  | zero => rfl
  | succ depth ih =>
      have hrule : rules.parser depth = fun _ _ => Parser.unfold pair depth := by
        funext name args
        exact ih name args
      funext s
      ext budget ctx
      show ((pairGrammar.toParser (rules.parser depth) s).run budget ctx) = _
      rw [toParser_pair, hrule]
      rfl

/-- **The program is the parser of its grammar.** -/
theorem program_eq : program = programGrammar.parser rules := by
  funext s
  ext budget ctx
  show _ = ((programGrammar.toParser (rules.parser budget)) s).run budget ctx
  rw [programGrammar, Grammar.toParser, Grammar.toParser, Grammar.toParser, parser_rules]
  simp only [Grammar.toParser_fmap]
  -- every round of the repetition unfolds the recursive parser anew, with the same budget
  have hnested : Parser.Corresponds .identical budget nested (Parser.unfold pair budget) :=
    Parser.corresponds_identical_iff.mpr fun _ _ => rfl
  have hrest : ∀ p : Parser, Parser.Corresponds .identical budget p p := fun _ =>
    Parser.corresponds_identical_iff.mpr fun _ _ => rfl
  exact Parser.corresponds_identical_iff.mp (.bind (.many hnested) fun _ => hrest _) s ctx

/-! ## Plainness -/

theorem plain_open : openGrammar.Plain :=
  ⟨trivial, trivial, fun _ => Grammar.plain_ofAction_bind _ fun _ =>
    ⟨trivial, trivial, Grammar.plain_pushUserData _⟩⟩

theorem plain_pair : pairGrammar.Plain :=
  ⟨trivial, plain_open, fun _ => ⟨trivial, ⟨trivial, trivial⟩, fun _ =>
    Grammar.plain_fmap ⟨trivial, trivial, trivial⟩⟩⟩

theorem plain_program : programGrammar.Plain :=
  ⟨trivial, ⟨trivial, trivial⟩, fun _ => Grammar.plain_fmap trivial⟩

end PullParse.Nesting
