import PullParse.Grammar.Basic
import PullParse.Parser.UserData
import PullParse.Parser.Repetition
import PullParse.Parser.Entry
import PullParse.Parser.Observed

/-!
# The meaning of grammars

A grammar means the parser that its combinators build. The calls of rules are
what makes a grammar recursive: a rule is looked up each time it runs, and rules
may be nested as deep as the budget of the run allows.
-/

namespace PullParse

namespace Grammar

/-- The parser of a grammar, given the parsers of the rules. -/
def toParser (rule : String → List Value → Parser) : Grammar → Parser
  | .satisfy test => .satisfy test
  | .pure value => .pure value
  | .noting notes g => .noting notes (g.toParser rule)
  | .raise fault => .raise fault
  | .fail reason => .fail reason
  | .bind g f => (g.toParser rule).bind fun value => (f value).toParser rule
  | .andThen g h => (g.toParser rule).andThen (h.toParser rule)
  | .getUserData => Parser.getUserData
  | .putUserData value => .putUserData value
  | .popUserData => Parser.popUserData
  | .lookahead g => (g.toParser rule).lookahead
  | .notFollowedBy g => (g.toParser rule).notFollowedBy
  | .either g h => (g.toParser rule).either (h.toParser rule)
  | .many g => (g.toParser rule).many
  | .many1 g => (g.toParser rule).many1
  | .skipMany g => (g.toParser rule).skipMany
  | .skipMany1 g => (g.toParser rule).skipMany1
  | .manyUntil g terminator => (g.toParser rule).manyUntil (terminator.toParser rule)
  | .sepBy1 g sep => (g.toParser rule).sepBy1 (sep.toParser rule)
  | .count n g => .count n (g.toParser rule)
  | .traced id g => .traced id (g.toParser rule)
  | .activeSettings => Parser.activeSettings
  | .changeSettings changes => .changeSettings changes
  | .stateText => Parser.stateText
  | .nested g producer options overrides =>
    (g.toParser rule).nested producer options overrides
  | .call name args => rule name args

end Grammar

/-- The parser of a rule, with at most `depth` rules inside each other. -/
def Rules.parser (rules : Rules) : Nat → String → List Value → Parser
  | 0, _, _, _ => Run.unfinished
  | depth + 1, name, args, s =>
    ⟨fun budget ctx => ((rules name args).toParser (Rules.parser rules depth) s).run budget ctx⟩

/-- The parser of a grammar over its rules. -/
def Grammar.parser (rules : Rules) (g : Grammar) : Parser := fun s =>
  Run.withBudget fun budget => g.toParser (rules.parser budget) s

end PullParse
