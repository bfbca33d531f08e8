import PullParse.Proofs.Nesting.Readings
import PullParse.Proofs.Reading.Transparency

/-!
# The program measures depth

The program reads the longest balanced word that a list of tokens starts with,
and its value says how deep that word is. The user data that it ends with is that
which it was started on, since every pair takes off what it has put on, and an
opening bracket that is never closed is gone back over together with its depth.
-/

namespace PullParse.Nesting

/-- **The program measures the depth of brackets.** On every list of tokens, and on a stack of any
size, it matches the longest balanced word at the front of the list. Its value is zero if that word
is empty, and otherwise the size of the stack and the depth of the word taken together. The user
data is left as it was. A budget that exceeds the number of tokens is always enough, whatever the
settings are and however many tokens have been pulled before. -/
theorem program_measures_depth (ts : List Token) (src : Producer)
    (hsrc : src.Delivers (.ofList ts)) (u : Value) (xs : List Value) (hu : Stacked u xs)
    (budget : Nat) (hbudget : ts.length < budget) (ctx : Context) (hctx : ctx.cache.Reached src) :
    ∃ word, LongestBalanced ts word ∧
      ((program ⟨0, u⟩).run budget ctx).result? =
        some (.ok (.matched (.int (if word = [] then 0 else xs.length + depth word))
          ⟨word.length, u⟩)) := by
  have hstart : State.InRange ⟨0, u⟩ ctx.cache := State.inRange_start _ _
  have hrules : ∀ name args, (rules name args).Plain := fun _ _ => plain_pair
  have hrule := readsPairs_rule ctx.session.settings hbudget budget
  obtain ⟨word, rest, values, rfl, hbalanced, hstuck, hmany, hdeepest⟩ :=
    hrule.many (i := 0) ctx.session.settings hu hbudget hbudget
  refine ⟨word, hstuck.longest hbalanced, ?_⟩
  have hvalue : deepest (.int 0) (.list values) =
      .int (if word = [] then 0 else xs.length + depth word) := by
    have hpos := depth_nonneg word
    rw [hdeepest, reached, max_eq_right (by omega)]
  rw [program_eq, (Grammar.reads hsrc hrules plain_program (hctx.holds hsrc) hstart).result?_eq,
    Grammar.reader, programGrammar]
  refine (Grammar.result_bind_matched hmany).trans ?_
  rw [Grammar.result_fmap_ok (g := .getUserData) rfl rfl, hvalue, Nat.zero_add]

def openingToken : Token := ⟨openingClass, .null⟩

def closingToken : Token := ⟨closingClass, .null⟩

/-- The words `[[]]` and `[[]`, one behind the other. -/
def unclosedWords : List Token :=
  [openingToken, openingToken, closingToken, closingToken] ++
    (openingToken :: ([openingToken, closingToken] ++ []))

/-- On a stack of one element the first word reaches a depth of three. The bracket behind it is not
closed, and what it has pushed is gone. -/
theorem program_measures_depth_unclosed :
    (Producer.ofTokens unclosedWords).Delivers (.ofList unclosedWords) ∧
      Stacked (.list [.null]) [.null] ∧ unclosedWords.length < 8 ∧
      (Cache.fresh (.ofTokens unclosedWords)).Reached (.ofTokens unclosedWords) ∧
      ((program ⟨0, .list [.null]⟩).run 8 (.opened (.ofTokens unclosedWords)
        Session.fresh)).result? = some (.ok (.matched (.int 3) ⟨4, .list [.null]⟩)) := by
  have hdelivers := Producer.delivers_ofTokens unclosedWords
  have hreached : (Cache.fresh (.ofTokens unclosedWords)).Reached (.ofTokens unclosedWords) :=
    ⟨[], rfl⟩
  have hlength : unclosedWords.length < 8 := by decide
  have hpair : Balanced [openingToken, closingToken] := .pair rfl .nil rfl .nil
  have hstuck : Stuck (openingToken :: ([openingToken, closingToken] ++ [])) :=
    .of_unclosed hpair (.of_head (by simp)) (by simp)
  have hlongest : LongestBalanced unclosedWords
      [openingToken, openingToken, closingToken, closingToken] :=
    hstuck.longest (.pair rfl hpair rfl .nil)
  refine ⟨hdelivers, .list _, hlength, hreached, ?_⟩
  obtain ⟨word, hword, hresult⟩ := program_measures_depth unclosedWords _ hdelivers _ _
    (.list [.null]) 8 hlength (.opened _ Session.fresh) hreached
  obtain rfl := hword.unique hlongest
  rw [hresult]
  have hopening : weight openingToken = 1 := weight_opening rfl
  have hclosing : weight closingToken = -1 := weight_closing rfl
  simp [depth, hopening, hclosing]

end PullParse.Nesting
