import PullParse.Proofs.Correspondence.Leaves
import PullParse.Proofs.Position.Range

/-!
# What runs keep

A run keeps a property of its context if every step does: a read of a token, an
event in the journal, a change of the settings, and a parse that runs inside.
Once a fault has broken the run off, a weaker property may be all that is left.
The properties come as a family, whose member says what has been there at the
start. A run that keeps a property is one that corresponds to itself.
-/

namespace PullParse

variable {ι α β : Type} {budget : Nat}

/-- What an ending leaves: one property after an outcome, and another one after a fault. -/
inductive Ending.Leaves (kept : Context → Prop) (left : Fault → Context → Prop) :
    Ending Context α → Prop
  | done {a : α} {ctx : Context} (h : kept ctx) : Leaves kept left (.done a ctx)
  | raised {fault : Fault} {ctx : Context} (h : left fault ctx) :
      Leaves kept left (.raised fault ctx)
  | unfinished : Leaves kept left .unfinished

theorem Ending.Leaves.final {kept : Context → Prop} {e : Ending Context α}
    (h : e.Leaves kept fun _ => kept) {ctx : Context} (hfinal : e.final? = some ctx) : kept ctx := by
  cases h with
  | done hkept => exact Option.some.inj hfinal ▸ hkept
  | raised hkept => exact Option.some.inj hfinal ▸ hkept
  | unfinished => cases hfinal

/-- Every step of a run keeps the members of a family of properties. -/
structure Upheld (budget : Nat) (kept : ι → Context → Prop) (left : ι → Fault → Context → Prop) :
    Prop where
  /-- Some member holds of every context. -/
  starts : ∀ ctx, ∃ i, kept i ctx
  broken : ∀ {i ctx}, kept i ctx → ∀ fault, left i fault ctx
  tokenAt : ∀ {i ctx}, kept i ctx → ∀ position,
    ((Run.tokenAt position).run budget ctx).Leaves (kept i) (left i)
  /-- Only the log and the profile are accounted for. -/
  quiet : ∀ {i ctx}, kept i ctx → ∀ session : Session, session.log = ctx.session.log →
    session.profiler = ctx.session.profiler → kept i { ctx with session := session }
  quiet_left : ∀ {i fault ctx}, left i fault ctx → ∀ session : Session,
    session.log = ctx.session.log → session.profiler = ctx.session.profiler →
    left i fault { ctx with session := session }
  parse : ∀ {i ctx} (p : Parser) (producer : Producer) (options : Options)
    (overrides : List (String × Value)),
    (∀ j s ctx, kept j ctx → ((p s).run budget ctx).Leaves (kept j) (left j)) → kept i ctx →
    ((p.parse options overrides).run budget (.opened producer ctx.session)).Leaves
      (fun inner => kept i { ctx with session := inner.session })
      (fun fault inner => left i fault { ctx with session := inner.session })

/-- The runs are the same, and keep a property. -/
def Correspondence.upkeep (kept : Context → Prop) (left : Fault → Context → Prop)
    (broken : ∀ {ctx}, kept ctx → ∀ fault, left fault ctx) : Correspondence :=
  .ofContexts (fun ctx ctx' => ctx' = ctx ∧ kept ctx)
    (fun fault ctx ctx' => ctx' = ctx ∧ left fault ctx) False (fun h => by rw [h.1])
    fun h fault => ⟨h.1, broken h.2 fault⟩

theorem Session.log_writeNotes (session : Session) (notes : List Value) :
    (session.writeNotes notes).log = session.log := by
  unfold writeNotes
  induction notes generalizing session with
  | nil => rfl
  | cons v vs ih => exact ih (session.write (.note v))

theorem Session.profiler_writeNotes (session : Session) (notes : List Value) :
    (session.writeNotes notes).profiler = session.profiler := by
  unfold writeNotes
  induction notes generalizing session with
  | nil => rfl
  | cons v vs ih => exact ih (session.write (.note v))

section

variable {kept : Context → Prop} {left : Fault → Context → Prop}
variable {broken : ∀ {ctx}, kept ctx → ∀ fault, left fault ctx}

/-- A run that keeps a property corresponds to itself. -/
theorem Run.Corresponds.of_leaves {same : α → α → Prop} (hsame : ∀ a, same a a)
    {x : Run Context α} (h : ∀ ctx, kept ctx → (x.run budget ctx).Leaves kept left) :
    Run.Corresponds (.upkeep kept left broken) budget same x x := by
  rintro ctx ctx' ⟨rfl, hkept⟩
  have hends := h ctx' hkept
  generalize x.run budget ctx' = e at hends ⊢
  cases hends with
  | done hctx => exact .done ⟨rfl, hctx⟩ (hsame _)
  | raised hctx => exact .raised ⟨rfl, hctx⟩
  | unfinished => exact .unfinished

/-- Parsers that correspond run in the same way, and keep the property. -/
theorem Parser.Corresponds.leaves {p q : Parser}
    (h : Parser.Corresponds (.upkeep kept left broken) budget p q) (s : State) {ctx : Context}
    (hctx : kept ctx) :
    (q s).run budget ctx = (p s).run budget ctx ∧ ((p s).run budget ctx).Leaves kept left := by
  have hends := h s s rfl ctx ctx ⟨rfl, hctx⟩
  generalize (p s).run budget ctx = e, (q s).run budget ctx = e' at hends ⊢
  cases hends with
  | done hkept hboth =>
      obtain ⟨rfl, hkept⟩ := hkept
      cases hboth with
      | matched value hs =>
          obtain rfl := hs
          exact ⟨rfl, .done hkept⟩
      | noMatch => exact ⟨rfl, .done hkept⟩
  | raised hleft =>
      obtain ⟨rfl, hleft⟩ := hleft
      exact ⟨rfl, .raised hleft⟩
  | excused hlenient => exact hlenient.elim
  | unfinished => exact ⟨rfl, .unfinished⟩

end

namespace Upheld

variable {kept : ι → Context → Prop} {left : ι → Fault → Context → Prop}

/-- The member of the family as a correspondence. -/
def correspondence (H : Upheld budget kept left) (i : ι) : Correspondence :=
  .upkeep (kept i) (left i) H.broken

theorem stepwise (H : Upheld budget kept left) (i : ι) : (H.correspondence i).Stepwise budget where
  states_eq := rfl
  broken h fault := ⟨h.1, H.broken h.2 fault⟩
  tokenAt position := .of_leaves (fun _ => rfl) fun _ h => H.tokenAt h position
  notes h notes := ⟨by rw [h.1],
    H.quiet h.2 _ (Session.log_writeNotes _ notes) (Session.profiler_writeNotes _ notes)⟩
  settings_eq h := by rw [h.1]
  setSettings h new := ⟨by rw [h.1], H.quiet h.2 _ rfl rfl⟩

/-- Marks around a parser change nothing that is accounted for. -/
theorem traced (H : Upheld budget kept left) (id : Value) {i : ι} {p q : Parser}
    (h : Parser.Corresponds (H.correspondence i) budget p q) :
    Parser.Corresponds (H.correspondence i) budget (p.traced id) (q.traced id) :=
  Parser.Corresponds.traced id h (fun hctx _ => ⟨by rw [hctx.1], H.quiet hctx.2 _ rfl rfl⟩)
    fun hleft _ => ⟨by rw [hleft.1], H.quiet_left hleft.2 _ rfl rfl⟩

/-- A parse that runs inside is accounted for as a step. -/
theorem nested (H : Upheld budget kept left) (producer : Producer) (options : Options)
    (overrides : List (String × Value)) {p q : Parser}
    (h : ∀ i, Parser.Corresponds (H.correspondence i) budget p q) (i : ι) :
    Parser.Corresponds (H.correspondence i) budget (p.nested producer options overrides)
      (q.nested producer options overrides) := by
  have hsame : ∀ s ctx, (q s).run budget ctx = (p s).run budget ctx := by
    intro s ctx
    obtain ⟨j, hj⟩ := H.starts ctx
    exact ((h j).leaves s hj).1
  rintro s _ rfl ctx ctx' ⟨rfl, hctx⟩
  have hends := H.parse p producer options overrides (fun j s ctx hj => ((h j).leaves s hj).2) hctx
  have hparse := Parser.parse_congr (fun u ctx => hsame ⟨0, u⟩ ctx) options overrides
    (.opened producer ctx'.session)
  simp only [Parser.nested, Run.run_bind, Run.within, hparse]
  generalize (p.parse options overrides).run budget (.opened producer ctx'.session) = e at hends ⊢
  cases hends with
  | done hkept => exact .done ⟨rfl, hkept⟩ (.matched _ rfl)
  | raised hleft => exact .raised ⟨rfl, hleft⟩
  | unfinished => exact .unfinished

/-- No hook is needed to see what a run keeps. -/
theorem respects (H : Upheld budget kept left) :
    Hook.Respects (fun _ p => p) id H.correspondence budget (fun _ => True) where
  leaf g rule hg i := (H.stepwise i).leaf g rule hg
  notes notes i _ _ h := .done ((H.stepwise i).notes h notes) trivial
  trace id _ _ _ _ h i := H.traced id (h i)
  parse _ producer options overrides _ _ _ h := H.nested producer options overrides h
  node _ _ _ h := h

/-- **What every step keeps is kept by every run of a grammar.** -/
theorem grammar (H : Upheld budget kept left) (rules : Rules) (g : Grammar) (i : ι) (s : State)
    {ctx : Context} (hctx : kept i ctx) :
    ((g.parser rules s).run budget ctx).Leaves (kept i) (left i) := by
  have hall : ∀ g : Grammar, g.All fun _ => True := Grammar.All.of_forall fun _ => trivial
  obtain ⟨q, -, hq⟩ := Grammar.observed_hooked H.respects (fun name args => hall _) (hall g)
  exact ((hq i).leaves s hctx).2

end Upheld

end PullParse
