import PullParse.Proofs.Correspondence.Grammar
import PullParse.Proofs.Position.Range

/-!
# Matches lead onward

Whatever the state a grammar starts from, in range or not, and whatever the cache
holds, a match never leaves a position before that of the start. To go back is to
run another parser on an earlier state, and no grammar matches with one.
-/

namespace PullParse

variable {α : Type} {budget : Nat} {origin : Int}

/-- The runs are the same, from states at the origin or behind it. -/
def Correspondence.onward (origin : Int) : Correspondence :=
  { Correspondence.identical with
    states := fun s s' => s' = s ∧ origin ≤ s.position
    position_eq := fun h => by rw [h.1] }

/-- Every run corresponds to itself. -/
theorem Run.Corresponds.itself (x : Run Context α) :
    Run.Corresponds (.onward origin) budget Eq x x := by
  rintro _ ctx rfl
  cases x.run budget ctx with
  | done a ctx' => exact .done rfl rfl
  | raised fault ctx' => exact .raised rfl
  | unfinished => exact .unfinished

namespace Parser.Corresponds

variable {p q : Parser}

/-- It is enough to start both parsers from the same state. -/
theorem ofOnward (h : ∀ s, origin ≤ s.position →
      Run.Corresponds (.onward origin) budget (Outcome.Both (Correspondence.onward origin).states)
        (p s) (q s)) :
    Corresponds (.onward origin) budget p q := by
  rintro s _ ⟨rfl, hs⟩
  exact h _ hs

/-- The parsers run in the same way, and match no earlier than they start. -/
theorem onward (h : Corresponds (.onward origin) budget p q) {s : State}
    (hs : origin ≤ s.position) (ctx : Context) :
    (q s).run budget ctx = (p s).run budget ctx ∧
      ∀ value s' ctx', (p s).run budget ctx = .done (.matched value s') ctx' →
        origin ≤ s'.position := by
  have hends := h s s ⟨rfl, hs⟩ ctx ctx rfl
  generalize (p s).run budget ctx = e, (q s).run budget ctx = e' at hends ⊢
  cases hends with
  | done hctx hboth =>
      obtain rfl := hctx
      cases hboth with
      | matched value hstates =>
          obtain ⟨rfl, hposition⟩ := hstates
          refine ⟨rfl, ?_⟩
          rintro _ _ _ ⟨⟩
          exact hposition
      | noMatch => exact ⟨rfl, nofun⟩
  | raised hctx =>
      obtain rfl := hctx
      exact ⟨rfl, nofun⟩
  | excused hlenient => exact hlenient.elim
  | unfinished => exact ⟨rfl, nofun⟩

/-! ## Parsers without parts -/

/-- What matches in place, whatever runs before. -/
theorem inPlace (x : State → Run Context α) (value data : State → α → Value) :
    Corresponds (.onward origin) budget
      (fun s => x s >>= fun a => return .matched (value s a) { s with userData := data s a })
      (fun s => x s >>= fun a => return .matched (value s a) { s with userData := data s a }) := by
  refine .ofOnward fun s hs => ?_
  apply (Run.Corresponds.itself (x s)).bind
  rintro a _ rfl
  exact .pure (.matched _ ⟨rfl, hs⟩)

theorem raising (fault : State → Fault) :
    Corresponds (.onward origin) budget (fun s => Run.raise (fault s))
      (fun s => Run.raise (fault s)) := by
  rintro _ s ⟨rfl, -⟩ _ ctx rfl
  exact .raised rfl

theorem satisfy (test : Value → Action Bool) :
    Corresponds (.onward origin) budget (.satisfy test) (.satisfy test) := by
  refine .ofOnward fun s hs => ?_
  apply (Run.Corresponds.itself (Parser.current s)).bind
  rintro token _ rfl
  apply (Run.Corresponds.itself (Run.perform (test token.cls))).bind
  rintro passes _ rfl
  cases passes with
  | false => exact .pure .noMatch
  | true =>
      simp only [if_true, Parser.advance, bind_assoc]
      apply (Run.Corresponds.itself (Parser.current s)).bind
      rintro again _ rfl
      rw [pure_bind]
      cases again.isEof with
      | true => exact .pure (.matched _ ⟨rfl, hs⟩)
      | false => exact .pure (.matched _ ⟨rfl, le_trans hs (by simp)⟩)

theorem leaf (g : Grammar) (rule : String → List Value → Parser) (hg : g.IsLeaf) :
    Corresponds (.onward origin) budget (g.toParser rule) (g.toParser rule) := by
  cases g with
  | satisfy test => exact satisfy test
  | pure value => exact inPlace (fun _ => pure ()) (fun _ _ => value) fun s _ => s.userData
  | raise fault => exact raising fun _ => fault
  | fail reason => exact raising fun s => .parse reason (.int s.position)
  | getUserData =>
      exact inPlace (fun _ => pure ()) (fun s _ => s.userData) fun s _ => s.userData
  | putUserData value => exact inPlace (fun _ => pure ()) (fun _ _ => value) fun _ _ => value
  | popUserData =>
      exact inPlace (fun s => Run.ofExcept ((Stack.ofValue s.userData).bind Stack.pop))
        (fun _ popped => popped.1) fun _ popped => popped.2
  | activeSettings =>
      exact inPlace (fun _ => Run.settings) (fun _ active => active.toValue) fun s _ => s.userData
  | changeSettings changes =>
      refine .ofOnward fun s hs => ?_
      apply (Run.Corresponds.itself Run.settings).bind
      rintro active _ rfl
      apply (Run.Corresponds.itself (Run.ofExcept (active.override changes))).bind
      rintro changed _ rfl
      apply (Run.Corresponds.itself (Run.setSettings changed)).bind
      rintro _ _ _
      exact .pure (.matched _ ⟨rfl, hs⟩)
  | stateText =>
      exact inPlace (fun _ => pure ()) (fun s _ => .str s.display) fun s _ => s.userData
  | _ => exact hg.elim

/-! ## Parses inside -/

/-- A parse inside matches in place. -/
theorem nested (producer : Producer) (options : Options) (overrides : List (String × Value))
    (h : ∀ origin, Corresponds (.onward origin) budget p q) :
    Corresponds (.onward origin) budget (p.nested producer options overrides)
      (q.nested producer options overrides) := by
  have hsame : ∀ s ctx, (q s).run budget ctx = (p s).run budget ctx :=
    fun s ctx => ((h s.position).onward le_rfl ctx).1
  rintro _ s ⟨rfl, hs⟩ _ ctx rfl
  have hparse := Parser.parse_congr (fun u ctx => hsame ⟨0, u⟩ ctx) options overrides
    (.opened producer ctx.session)
  simp only [Parser.nested, Run.run_bind, Run.within, hparse]
  generalize (p.parse options overrides).run budget (.opened producer ctx.session) = e
  cases e with
  | done answer inner => exact .done rfl (.matched _ ⟨rfl, hs⟩)
  | raised fault inner => exact .raised rfl
  | unfinished => exact .unfinished

end Parser.Corresponds

/-- No hook is needed to see where a match leads. -/
theorem Correspondence.onward_respects (budget : Nat) :
    Hook.Respects (fun _ p => p) id Correspondence.onward budget (fun _ => True) where
  leaf g rule hg _ := .leaf g rule hg
  notes _ _ ctx ctx' h := by
    subst h
    exact .done rfl trivial
  trace id _ _ _ _ h i := by
    refine .traced id (h i) ?_ ?_
    · rintro _ ctx rfl event
      rfl
    · rintro _ _ ctx rfl event
      rfl
  parse _ producer options overrides _ _ _ h _ := .nested producer options overrides h
  node _ _ _ h := h

/-- **A match of a grammar leads onward**, whatever state it starts from. -/
theorem Grammar.position_le (rules : Rules) (g : Grammar) {s s' : State} {ctx ctx' : Context}
    {value : Value} (h : (g.parser rules s).run budget ctx = .done (.matched value s') ctx') :
    s.position ≤ s'.position := by
  have hall : ∀ g : Grammar, g.All fun _ => True := Grammar.All.of_forall fun _ => trivial
  obtain ⟨q, -, hq⟩ := Grammar.observed_hooked (Correspondence.onward_respects budget)
    (fun name args => hall (rules name args)) (hall g)
  exact ((hq s.position).onward le_rfl ctx).2 value s' ctx' h

end PullParse
