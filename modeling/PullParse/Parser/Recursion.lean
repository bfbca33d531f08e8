import PullParse.Parser.Basic

/-!
# Recursive parsers

A recursive parser is one that runs itself. It is unfolded as often as it is
entered, and at most as deep as the budget of the run allows.
-/

namespace PullParse.Parser

/-- The `depth`-fold unfolding of a recursive parser, unfinished where it goes deeper. -/
def unfold (body : Parser → Parser) : Nat → Parser
  | 0, _ => Run.unfinished
  | depth + 1, s => ⟨fun budget ctx => (body (unfold body depth) s).run budget ctx⟩

/-- The parser that is its own body. -/
def fix (body : Parser → Parser) : Parser := fun s =>
  Run.withBudget fun budget => unfold body budget s

end PullParse.Parser
