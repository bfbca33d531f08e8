import PullParse.Proofs.Correspondence.Combinators
import PullParse.Proofs.Grammar.Instrumented
import PullParse.Proofs.Reading.Grammar

/-!
# Hooks that keep grammars in correspondence

A grammar with hooks at its nodes runs as the grammar itself does, as far as a
correspondence can tell, if each hook alone goes unnoticed. What that takes is
gathered in one structure: the parsers without parts correspond to themselves,
and the hook at a node may be put around any parser that corresponds to the
node's. A parse inside the grammar works on a context of its own, so it goes
through an enclosure of its own before the hook is put around it.
-/

namespace PullParse

open PullParse.Parser (Corresponds)

/-- A hook around every node, and an enclosure around each parse inside, within the hook. -/
def Hook.enclosing (enclose : Parser → Parser) (hook : Hook) : Hook := fun g p =>
  hook g (Hook.onParses enclose g p)

/-- A grammar without parts. -/
def Grammar.IsLeaf : Grammar → Prop
  | .satisfy _ | .pure _ | .raise _ | .fail _ | .getUserData | .putUserData _ | .popUserData
  | .activeSettings | .changeSettings _ | .stateText => True
  | _ => False

variable {ι : Type}

/-- The hook and the enclosure go unnoticed by a family of correspondences, in grammars with the
given kinds of parts. The family has a member for everything that may have happened before. -/
structure Hook.Respects (hook : Hook) (enclose : Parser → Parser) (C : ι → Correspondence)
    (budget : Nat) (parts : Grammar → Prop) : Prop where
  leaf : ∀ (g : Grammar) (rule : String → List Value → Parser), g.IsLeaf → ∀ i,
    Corresponds (C i) budget (g.toParser rule) (g.toParser rule)
  notes : ∀ (notes : List Value) (i : ι),
    Run.Corresponds (C i) budget (fun _ _ => True) (Run.perform ⟨notes, .ok ()⟩)
      (Run.perform ⟨notes, .ok ()⟩)
  trace : ∀ (id : Value) (g : Grammar) (p q : Parser), parts (.traced id g) →
    (∀ i, Corresponds (C i) budget p q) → ∀ i,
    Corresponds (C i) budget (p.traced id) (q.traced id)
  parse : ∀ (g : Grammar) (producer : Producer) (options : Options)
    (overrides : List (String × Value)) (p q : Parser),
    parts (.nested g producer options overrides) → (∀ i, Corresponds (C i) budget p q) → ∀ i,
    Corresponds (C i) budget (p.nested producer options overrides)
      (enclose (q.nested producer options overrides))
  node : ∀ (g : Grammar) (rule : String → List Value → Parser) (q : Parser),
    (∀ i, Corresponds (C i) budget (g.toParser rule) q) → ∀ i,
    Corresponds (C i) budget (g.toParser rule) (hook g q)

variable {C : ι → Correspondence} {budget : Nat} {parts : Grammar → Prop}
variable {hook : Hook} {enclose : Parser → Parser}

namespace Grammar

/-- The parser of a node is the hook around a parser that corresponds to the node's. -/
def Hooked (C : ι → Correspondence) (budget : Nat) (hook : Hook)
    (rule : String → List Value → Parser) (g : Grammar) (p : Parser) : Prop :=
  ∃ q, p = hook g q ∧ ∀ i, Corresponds (C i) budget (g.toParser rule) q

theorem Hooked.corresponds (H : hook.Respects enclose C budget parts)
    {rule : String → List Value → Parser} {g : Grammar} {p : Parser}
    (h : g.Hooked C budget hook rule p) (i : ι) : Corresponds (C i) budget (g.toParser rule) p := by
  obtain ⟨q, rfl, hq⟩ := h
  exact H.node g rule q hq i

/-- A grammar with hooks that go unnoticed corresponds to the grammar, if its rules do. -/
theorem instrumented_hooked (H : hook.Respects enclose C budget parts)
    {rule rule' : String → List Value → Parser}
    (hrule : ∀ name args i, Corresponds (C i) budget (rule name args) (rule' name args))
    {g : Grammar} (hg : g.All parts) :
    g.Hooked C budget hook rule (g.instrumented (.enclosing enclose hook) rule') := by
  induction g with
  | satisfy test => exact ⟨_, rfl, H.leaf (.satisfy test) rule trivial⟩
  | pure value => exact ⟨_, rfl, H.leaf (.pure value) rule trivial⟩
  | noting notes g ih =>
      have hpart := (ih hg.2).corresponds H
      exact ⟨_, rfl, fun i => .noting (H.notes notes i) (hpart i)⟩
  | raise fault => exact ⟨_, rfl, H.leaf (.raise fault) rule trivial⟩
  | fail reason => exact ⟨_, rfl, H.leaf (.fail reason) rule trivial⟩
  | bind g f ihg ihf =>
      have hfirst := (ihg hg.2.1).corresponds H
      have hnext := fun value => (ihf value (hg.2.2 value)).corresponds H
      exact ⟨_, rfl, fun i => .bind (hfirst i) fun value => hnext value i⟩
  | andThen g h ihg ihh =>
      have hfirst := (ihg hg.2.1).corresponds H
      have hnext := (ihh hg.2.2).corresponds H
      exact ⟨_, rfl, fun i => .andThen (hfirst i) (hnext i)⟩
  | getUserData => exact ⟨_, rfl, H.leaf .getUserData rule trivial⟩
  | putUserData value => exact ⟨_, rfl, H.leaf (.putUserData value) rule trivial⟩
  | popUserData => exact ⟨_, rfl, H.leaf .popUserData rule trivial⟩
  | lookahead g ih =>
      have hpart := (ih hg.2).corresponds H
      exact ⟨_, rfl, fun i => .lookahead (hpart i)⟩
  | notFollowedBy g ih =>
      have hpart := (ih hg.2).corresponds H
      exact ⟨_, rfl, fun i => .notFollowedBy (hpart i)⟩
  | either g h ihg ihh =>
      have hfirst := (ihg hg.2.1).corresponds H
      have hother := (ihh hg.2.2).corresponds H
      exact ⟨_, rfl, fun i => .either (hfirst i) (hother i)⟩
  | many g ih =>
      have hpart := (ih hg.2).corresponds H
      exact ⟨_, rfl, fun i => .many (hpart i)⟩
  | many1 g ih =>
      have hpart := (ih hg.2).corresponds H
      exact ⟨_, rfl, fun i => .many1 (hpart i)⟩
  | skipMany g ih =>
      have hpart := (ih hg.2).corresponds H
      exact ⟨_, rfl, fun i => .skipMany (hpart i)⟩
  | skipMany1 g ih =>
      have hpart := (ih hg.2).corresponds H
      exact ⟨_, rfl, fun i => .skipMany1 (hpart i)⟩
  | manyUntil g terminator ihg iht =>
      have hpart := (ihg hg.2.1).corresponds H
      have hlast := (iht hg.2.2).corresponds H
      exact ⟨_, rfl, fun i => .manyUntil (hpart i) (hlast i)⟩
  | sepBy1 g sep ihg ihs =>
      have hpart := (ihg hg.2.1).corresponds H
      have hsep := (ihs hg.2.2).corresponds H
      exact ⟨_, rfl, fun i => .sepBy1 (hpart i) (hsep i)⟩
  | count n g ih =>
      have hpart := (ih hg.2).corresponds H
      exact ⟨_, rfl, fun i => .count n (hpart i)⟩
  | traced id g ih =>
      have hpart := (ih hg.2).corresponds H
      exact ⟨_, rfl, H.trace id g _ _ hg.1 hpart⟩
  | activeSettings => exact ⟨_, rfl, H.leaf .activeSettings rule trivial⟩
  | changeSettings changes => exact ⟨_, rfl, H.leaf (.changeSettings changes) rule trivial⟩
  | stateText => exact ⟨_, rfl, H.leaf .stateText rule trivial⟩
  | nested g producer options overrides ih =>
      have hpart := (ih hg.2).corresponds H
      exact ⟨_, rfl, H.parse g producer options overrides _ _ hg.1 hpart⟩
  | call name args => exact ⟨_, rfl, hrule name args⟩

end Grammar

/-- Rules with hooks that go unnoticed correspond to the rules, however deep they are inside each
other. -/
theorem Rules.corresponds (H : hook.Respects enclose C budget parts) {rules : Rules}
    (hrules : ∀ name args, (rules name args).All parts) (depth : Nat) (name : String)
    (args : List Value) (i : ι) :
    Corresponds (C i) budget (rules.parser depth name args)
      (rules.instrumented (.enclosing enclose hook) depth name args) := by
  induction depth generalizing name args i with
  | zero => exact fun _ _ _ => .unfinished
  | succ depth ih =>
      exact (Grammar.instrumented_hooked H ih (hrules name args)).corresponds H i

/-- The run of a grammar over its rules, with hooks that go unnoticed, is the hook of the whole
grammar around runs that correspond to those of the grammar. -/
theorem Grammar.observed_hooked (H : hook.Respects enclose C budget parts) {rules : Rules}
    (hrules : ∀ name args, (rules name args).All parts) {g : Grammar} (hg : g.All parts) :
    ∃ q, (∀ s ctx, (g.observed (.enclosing enclose hook) rules s).run budget ctx =
        (hook g q s).run budget ctx) ∧
      ∀ i, Corresponds (C i) budget (g.parser rules) q := by
  obtain ⟨q, heq, hq⟩ :=
    Grammar.instrumented_hooked H (Rules.corresponds H hrules budget) hg
  refine ⟨q, fun s ctx => ?_, fun i s s' hs => hq i s s' hs⟩
  rw [← heq]
  rfl

end PullParse
