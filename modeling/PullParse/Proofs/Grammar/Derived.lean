import PullParse.Grammar.Meaning
import PullParse.Proofs.Reading.Grammar

/-!
# Derived grammars

The combinators that grammars derive from others mean the parsers of their name.
Where a callback decides how a grammar goes on, the parser goes on with the
meaning of what it decides for.
-/

namespace PullParse.Grammar

/-- A grammar that performs an action runs as the parser that performs it. -/
theorem toParser_ofAction (rule : String → List Value → Parser) (x : Action Grammar) :
    (ofAction x).toParser rule = .ofAction ⟨x.notes, x.result.map fun g => g.toParser rule⟩ := by
  obtain ⟨notes, result⟩ := x
  funext s
  ext budget ctx
  cases result with
  | ok g => rfl
  | error fault => rfl

/-- What a grammar goes on with after an action is what its parser goes on with. -/
theorem toParser_ofAction_bind {α : Type} (rule : String → List Value → Parser) (x : Action α)
    (f : α → Grammar) :
    (ofAction (do return f (← x))).toParser rule =
      .ofAction (do return (f (← x)).toParser rule) := by
  rw [toParser_ofAction]
  obtain ⟨notes, result⟩ := x
  cases result with
  | ok a => rfl
  | error fault => rfl

/-- The value of a match is replaced in a grammar as it is in a parser. -/
theorem toParser_fmap (rule : String → List Value → Parser) (f : Value → Action Value)
    (g : Grammar) : (fmap f g).toParser rule = (g.toParser rule).fmap f := by
  rw [fmap, toParser, Parser.fmap]
  congr 1
  funext value
  exact toParser_ofAction_bind rule (f value) .pure

theorem toParser_modifyUserData (rule : String → List Value → Parser) (f : Value → Action Value) :
    (modifyUserData f).toParser rule = .modifyUserData f := by
  rw [modifyUserData, toParser, Parser.modifyUserData, toParser]
  congr 1
  funext data
  exact toParser_ofAction_bind rule (f data) .putUserData

theorem toParser_pushUserData (rule : String → List Value → Parser) (value : Value) :
    (pushUserData value).toParser rule = .pushUserData value := by
  rw [pushUserData, toParser, toParser_modifyUserData]
  rfl

/-! ## Plainness -/

theorem plain_ofAction {x : Action Grammar} (h : ∀ g, x.result = .ok g → g.Plain) :
    (ofAction x).Plain := by
  obtain ⟨notes, result⟩ := x
  cases result with
  | ok g => exact ⟨trivial, h g rfl⟩
  | error fault => exact ⟨trivial, trivial⟩

/-- What an action lets a grammar go on with is plain if every possibility is. -/
theorem plain_ofAction_bind {α : Type} (x : Action α) {f : α → Grammar} (h : ∀ a, (f a).Plain) :
    (ofAction (do return f (← x))).Plain := by
  refine plain_ofAction fun g hg => ?_
  obtain ⟨notes, result⟩ := x
  cases result with
  | ok a =>
      obtain rfl := Except.ok.inj hg
      exact h a
  | error fault => cases hg

theorem plain_fmap {f : Value → Action Value} {g : Grammar} (hg : g.Plain) : (fmap f g).Plain :=
  ⟨trivial, hg, fun value => plain_ofAction_bind (f value) fun _ => trivial⟩

theorem plain_pushUserData (value : Value) : (pushUserData value).Plain :=
  ⟨trivial, ⟨trivial, trivial, fun _ => plain_ofAction_bind _ fun _ => trivial⟩, trivial⟩

end PullParse.Grammar
