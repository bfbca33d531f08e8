import PullParse.Arithmetic.Program
import PullParse.Proofs.Grammar.Derived
import PullParse.Proofs.Reading.Results

/-!
# Arithmetic as a grammar

The evaluator is a grammar with one rule, the sum, which parentheses call. The
parser of this grammar is the evaluator itself, so whatever is known of readings
of grammars holds of the evaluator.
-/

namespace PullParse.Arithmetic

open Operator

/-- One of several operators. -/
def operatorGrammar (first : Operator) (others : List Operator) : Grammar :=
  others.foldl (fun g op => .either g (.is (.str op.symbol))) (.is (.str first.symbol))

def stepGrammar (operand : Grammar) (first : Operator) (others : List Operator) : Grammar :=
  .bind (operatorGrammar first others) fun symbol =>
    .fmap (fun value => return .pair symbol value) operand

def chainGrammar (operand : Grammar) (first : Operator) (others : List Operator) : Grammar :=
  .bind operand fun value =>
    .fmap (fun steps => .ofExcept (applySteps value steps))
      (.many (stepGrammar operand first others))

def atomGrammar : Grammar :=
  .either (.is (.str numberClass))
    (.between (.is (.str "(")) (.is (.str ")")) (.call "sum" []))

def termGrammar : Grammar := chainGrammar atomGrammar times [divide]

def sumGrammar : Grammar := chainGrammar termGrammar plus [minus]

/-- The only rule is the sum. -/
def rules : Rules := fun _ _ => sumGrammar

def programGrammar : Grammar :=
  .bind (.call "sum" []) fun value => .sequence .eof (.pure value) []

/-! ## The parser of the grammar -/

variable {rule : String → List Value → Parser}

theorem toParser_operator (first : Operator) (others : List Operator) :
    (operatorGrammar first others).toParser rule = operator first others := by
  unfold operatorGrammar operator
  generalize hg : Grammar.is (.str first.symbol) = g
  generalize hp : Parser.is (.str first.symbol) = p
  have hgp : g.toParser rule = p := by rw [← hg, ← hp]; rfl
  clear hg hp
  induction others generalizing g p with
  | nil => exact hgp
  | cons op others ih =>
      refine ih _ _ ?_
      rw [← hgp]
      rfl

theorem toParser_step (operand : Grammar) (first : Operator) (others : List Operator) :
    (stepGrammar operand first others).toParser rule =
      step (operand.toParser rule) first others := by
  rw [stepGrammar, Grammar.toParser, toParser_operator, step]
  exact congrArg _ (funext fun _ => Grammar.toParser_fmap rule _ operand)

theorem toParser_chain (operand : Grammar) (first : Operator) (others : List Operator) :
    (chainGrammar operand first others).toParser rule =
      chain (operand.toParser rule) first others := by
  rw [chainGrammar, Grammar.toParser, chain]
  congr 1
  funext value
  rw [Grammar.toParser_fmap, Grammar.toParser, toParser_step]

theorem toParser_atom : atomGrammar.toParser rule = atom (rule "sum" []) := rfl

theorem toParser_sum : sumGrammar.toParser rule = sum (rule "sum" []) := by
  rw [sumGrammar, toParser_chain, termGrammar, toParser_chain, toParser_atom]
  rfl

/-- The rule unfolds as the recursive parser does. -/
theorem parser_rules (depth : Nat) (name : String) (args : List Value) :
    rules.parser depth name args = Parser.unfold sum depth := by
  induction depth generalizing name args with
  | zero => rfl
  | succ depth ih =>
      have hrule : rules.parser depth = fun _ _ => Parser.unfold sum depth := by
        funext name args
        exact ih name args
      funext s
      ext budget ctx
      show ((sumGrammar.toParser (rules.parser depth) s).run budget ctx) = _
      rw [toParser_sum, hrule]
      rfl

/-- **The evaluator is the parser of its grammar.** -/
theorem program_eq : program = programGrammar.parser rules := by
  funext s
  ext budget ctx
  show _ = ((programGrammar.toParser (rules.parser budget)) s).run budget ctx
  rw [programGrammar, Grammar.toParser, Grammar.toParser, parser_rules]
  rfl

/-! ## Plainness -/

theorem plain_operator (first : Operator) (others : List Operator) :
    (operatorGrammar first others).Plain := by
  unfold operatorGrammar
  have hfirst : (Grammar.is (.str first.symbol)).Plain := trivial
  generalize Grammar.is (.str first.symbol) = g at hfirst
  induction others generalizing g with
  | nil => exact hfirst
  | cons op others ih => exact ih _ ⟨trivial, hfirst, trivial⟩

theorem plain_chain {operand : Grammar} (h : operand.Plain) (first : Operator)
    (others : List Operator) : (chainGrammar operand first others).Plain :=
  ⟨trivial, h, fun _ =>
    Grammar.plain_fmap
      ⟨trivial, trivial, plain_operator first others, fun _ => Grammar.plain_fmap h⟩⟩

theorem plain_atom : atomGrammar.Plain :=
  ⟨trivial, trivial, trivial, trivial, fun _ =>
    ⟨trivial, trivial, fun _ => ⟨trivial, trivial, trivial⟩⟩⟩

theorem plain_sum : sumGrammar.Plain :=
  plain_chain (plain_chain plain_atom times [divide]) plus [minus]

theorem plain_program : programGrammar.Plain :=
  ⟨trivial, trivial, fun _ => ⟨trivial, trivial, trivial⟩⟩

end PullParse.Arithmetic
