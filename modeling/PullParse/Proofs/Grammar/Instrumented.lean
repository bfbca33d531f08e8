import PullParse.Grammar.Meaning

/-!
# Instrumented grammars

A hook is put around the parser of every node of a grammar, at every depth, in
the rules that it calls and in the parses that run inside it. What a hook
observes is therefore what happens at all nodes of the grammar, wherever in a
run they are reached. The grammar without hooks is the one with idle hooks.
-/

namespace PullParse

/-- What is put around the parser of a node. -/
abbrev Hook : Type := Grammar → Parser → Parser

/-- The hook around the tests of tokens, which leaves all other parsers as they are. -/
def Hook.onTokens (f : Parser → Parser) : Hook := fun g p =>
  match g with
  | .satisfy _ => f p
  | _ => p

/-- The hook around the parsers that may raise and have no parts. -/
def Hook.onLeaves (f : Parser → Parser) : Hook := fun g p =>
  match g with
  | .satisfy _ | .raise _ | .fail _ | .popUserData | .changeSettings _ => f p
  | _ => p

/-- The hook around the parses inside a grammar, which leaves all other parsers as they are. -/
def Hook.onParses (f : Parser → Parser) : Hook := fun g p =>
  match g with
  | .nested _ _ _ _ => f p
  | _ => p

/-- The hook that leaves parsers as they are. -/
def Hook.idle : Hook := .onTokens id

theorem Hook.idle_apply (g : Grammar) (p : Parser) : Hook.idle g p = p := by
  cases g <;> rfl

/-- The parser of a grammar with a hook at every node, given the parsers of the rules. -/
def Grammar.instrumented (hook : Hook) (rule : String → List Value → Parser) : Grammar → Parser
  | .satisfy test => hook (.satisfy test) (.satisfy test)
  | .pure value => hook (.pure value) (.pure value)
  | .noting notes g => hook (.noting notes g) (.noting notes (g.instrumented hook rule))
  | .raise fault => hook (.raise fault) (.raise fault)
  | .fail reason => hook (.fail reason) (.fail reason)
  | .bind g f =>
    hook (.bind g f)
      ((g.instrumented hook rule).bind fun value => (f value).instrumented hook rule)
  | .andThen g h =>
    hook (.andThen g h) ((g.instrumented hook rule).andThen (h.instrumented hook rule))
  | .getUserData => hook .getUserData Parser.getUserData
  | .putUserData value => hook (.putUserData value) (.putUserData value)
  | .popUserData => hook .popUserData Parser.popUserData
  | .lookahead g => hook (.lookahead g) (g.instrumented hook rule).lookahead
  | .notFollowedBy g => hook (.notFollowedBy g) (g.instrumented hook rule).notFollowedBy
  | .either g h =>
    hook (.either g h) ((g.instrumented hook rule).either (h.instrumented hook rule))
  | .many g => hook (.many g) (g.instrumented hook rule).many
  | .many1 g => hook (.many1 g) (g.instrumented hook rule).many1
  | .skipMany g => hook (.skipMany g) (g.instrumented hook rule).skipMany
  | .skipMany1 g => hook (.skipMany1 g) (g.instrumented hook rule).skipMany1
  | .manyUntil g terminator =>
    hook (.manyUntil g terminator)
      ((g.instrumented hook rule).manyUntil (terminator.instrumented hook rule))
  | .sepBy1 g sep =>
    hook (.sepBy1 g sep) ((g.instrumented hook rule).sepBy1 (sep.instrumented hook rule))
  | .count n g => hook (.count n g) (.count n (g.instrumented hook rule))
  | .traced id g => hook (.traced id g) (.traced id (g.instrumented hook rule))
  | .activeSettings => hook .activeSettings Parser.activeSettings
  | .changeSettings changes => hook (.changeSettings changes) (.changeSettings changes)
  | .stateText => hook .stateText Parser.stateText
  | .nested g producer options overrides =>
    hook (.nested g producer options overrides)
      ((g.instrumented hook rule).nested producer options overrides)
  | .call name args => hook (.call name args) (rule name args)

/-- The parser of a rule with a hook at every node. -/
def Rules.instrumented (hook : Hook) (rules : Rules) : Nat → String → List Value → Parser
  | 0, _, _, _ => Run.unfinished
  | depth + 1, name, args, s =>
    ⟨fun budget ctx =>
      ((rules name args).instrumented hook (Rules.instrumented hook rules depth) s).run budget ctx⟩

/-- The parser of a grammar over its rules with a hook at every node. -/
def Grammar.observed (hook : Hook) (rules : Rules) (g : Grammar) : Parser := fun s =>
  Run.withBudget fun budget => g.instrumented hook (rules.instrumented hook budget) s

variable {hook : Hook}

/-- Hooks that leave the parser of every node as it is change nothing. -/
theorem Grammar.instrumented_of_fixed {rule : String → List Value → Parser}
    (hfixed : ∀ g : Grammar, hook g (g.toParser rule) = g.toParser rule) (g : Grammar) :
    g.instrumented hook rule = g.toParser rule := by
  induction g with
  | bind g f ihg ihf =>
      simp only [instrumented, ihg, ihf]
      exact hfixed (.bind g f)
  | noting notes g ih => rw [instrumented, ih]; exact hfixed (.noting notes g)
  | lookahead g ih => rw [instrumented, ih]; exact hfixed (.lookahead g)
  | notFollowedBy g ih => rw [instrumented, ih]; exact hfixed (.notFollowedBy g)
  | many g ih => rw [instrumented, ih]; exact hfixed (.many g)
  | many1 g ih => rw [instrumented, ih]; exact hfixed (.many1 g)
  | skipMany g ih => rw [instrumented, ih]; exact hfixed (.skipMany g)
  | skipMany1 g ih => rw [instrumented, ih]; exact hfixed (.skipMany1 g)
  | count n g ih => rw [instrumented, ih]; exact hfixed (.count n g)
  | traced id g ih => rw [instrumented, ih]; exact hfixed (.traced id g)
  | nested g producer options overrides ih =>
      rw [instrumented, ih]
      exact hfixed (.nested g producer options overrides)
  | andThen g h ihg ihh => rw [instrumented, ihg, ihh]; exact hfixed (.andThen g h)
  | either g h ihg ihh => rw [instrumented, ihg, ihh]; exact hfixed (.either g h)
  | manyUntil g terminator ihg iht =>
      rw [instrumented, ihg, iht]
      exact hfixed (.manyUntil g terminator)
  | sepBy1 g sep ihg ihs => rw [instrumented, ihg, ihs]; exact hfixed (.sepBy1 g sep)
  | satisfy test => exact hfixed (.satisfy test)
  | pure value => exact hfixed (.pure value)
  | raise fault => exact hfixed (.raise fault)
  | fail reason => exact hfixed (.fail reason)
  | getUserData => exact hfixed .getUserData
  | putUserData value => exact hfixed (.putUserData value)
  | popUserData => exact hfixed .popUserData
  | activeSettings => exact hfixed .activeSettings
  | changeSettings changes => exact hfixed (.changeSettings changes)
  | stateText => exact hfixed .stateText
  | call name args => exact hfixed (.call name args)

theorem Rules.instrumented_of_fixed
    (hfixed : ∀ rule (g : Grammar), hook g (g.toParser rule) = g.toParser rule) (rules : Rules)
    (depth : Nat) : rules.instrumented hook depth = rules.parser depth := by
  induction depth with
  | zero => rfl
  | succ depth ih =>
      funext name args s
      ext budget ctx
      show ((rules name args).instrumented hook (rules.instrumented hook depth) s).run budget
        ctx = _
      rw [ih, Grammar.instrumented_of_fixed (hfixed _)]
      rfl

theorem Grammar.observed_of_fixed
    (hfixed : ∀ rule (g : Grammar), hook g (g.toParser rule) = g.toParser rule) (rules : Rules)
    (g : Grammar) : g.observed hook rules = g.parser rules := by
  funext s
  ext budget ctx
  show (g.instrumented hook (rules.instrumented hook budget) s).run budget ctx = _
  rw [Rules.instrumented_of_fixed hfixed, Grammar.instrumented_of_fixed (hfixed _)]
  rfl

/-- Idle hooks change nothing. -/
theorem Grammar.observed_idle (rules : Rules) (g : Grammar) :
    g.observed .idle rules = g.parser rules :=
  Grammar.observed_of_fixed (fun rule g => Hook.idle_apply g (g.toParser rule)) rules g

end PullParse
