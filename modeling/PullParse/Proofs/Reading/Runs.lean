import PullParse.Proofs.Reading.Grammar

/-!
# Runs and readings

A run over a cache and a reading of the stream proceed in step: from a state in
range they end the same way, and the run has filled its cache exactly as far as
the reading has looked. The relation is kept by every combinator, and so by every
grammar that leaves the settings alone and runs no parse of its own.
-/

namespace PullParse

variable {α β γ δ : Type} {marks : Marks} {src : Producer} {t : TokenStream}
variable {settings : Settings} {budget : Nat}

/-- The length of a cache after looks at some positions. -/
def Cache.filledTo (length : Nat) (positions : List Int) : Nat :=
  positions.foldl (fun n k => max n (k.toNat + 1)) length

theorem Cache.filledTo_append (n : Nat) (ks ls : List Int) :
    filledTo n (ks ++ ls) = filledTo (filledTo n ks) ls := List.foldl_append

theorem Cache.le_filledTo (n : Nat) (ks : List Int) : n ≤ filledTo n ks := by
  induction ks generalizing n with
  | nil => exact le_rfl
  | cons k ks ih => exact le_trans (le_max_left _ _) (ih _)

/-- The positions at which marked parsers have been entered. -/
def Session.entered (session : Session) : List Int :=
  session.journal.toList.filterMap fun
    | .enter _ position => some position
    | _ => none

theorem Session.entered_write (session : Session) (event : Event) :
    (session.write event).entered =
      session.entered ++ [event].filterMap (fun
        | .enter _ position => some position
        | _ => none) := by
  simp only [entered, write, Array.toList_push, List.filterMap_append]

theorem Session.entered_writeNotes (session : Session) (notes : List Value) :
    (session.writeNotes notes).entered = session.entered := by
  unfold writeNotes
  induction notes generalizing session with
  | nil => rfl
  | cons v vs ih =>
      rw [List.foldl_cons, ih, entered_write]
      simp

/-- The marks between two moments of a session, for reads at these positions. -/
def Marks.Between (marks : Marks) (positions : List Int) (before after : Session) : Prop :=
  match marks with
  | .any => True
  | .none => after.entered = before.entered
  | .each => after.entered = before.entered ++ positions

namespace Marks.Between

variable {marks : Marks} {before after later : Session} {ks ls : List Int}

/-- Where nothing is read nothing is marked. -/
theorem unread (h : after.entered = before.entered) : marks.Between [] before after := by
  cases marks with
  | any => trivial
  | none => exact h
  | each =>
      rw [Between, List.append_nil]
      exact h

theorem unmarked (hmarks : marks ≠ .each) (h : after.entered = before.entered) :
    marks.Between ks before after := by
  cases marks with
  | any => trivial
  | none => exact h
  | each => exact absurd rfl hmarks

theorem trans (h : marks.Between ks before after) (h' : marks.Between ls after later) :
    marks.Between (ks ++ ls) before later := by
  cases marks with
  | any => trivial
  | none => exact Eq.trans h' h
  | each =>
      show later.entered = _
      rw [h', h, List.append_assoc]

/-- What is marked does not depend on the events that are no marks. -/
theorem entered_eq (h : marks.Between ks before after) (hlater : later.entered = after.entered) :
    marks.Between ks before later := by
  have hboth := h.trans (unread hlater)
  rw [List.append_nil] at hboth
  exact hboth

end Marks.Between

namespace Context

/-- The context reads the stream under the settings. -/
structure Stands (ctx : Context) (src : Producer) (t : TokenStream) (settings : Settings) :
    Prop where
  holds : ctx.cache.Holds src t
  settings_eq : ctx.session.settings = settings

/-- What is left of a context once some positions have been looked at. -/
structure Looked (ctx : Context) (marks : Marks) (src : Producer) (t : TokenStream)
    (positions : List Int) (ctx' : Context) : Prop where
  holds : ctx'.cache.Holds src t
  length : ctx'.cache.length = Cache.filledTo ctx.cache.length positions
  settings_eq : ctx'.session.settings = ctx.session.settings
  marked : marks.Between positions ctx.session ctx'.session
  nonneg : ∀ k ∈ positions, 0 ≤ k

theorem Stands.looked {ctx ctx' : Context} {ks : List Int} (h : ctx.Stands src t settings)
    (hl : ctx.Looked marks src t ks ctx') : ctx'.Stands src t settings :=
  ⟨hl.holds, hl.settings_eq.trans h.settings_eq⟩

theorem Stands.looked_nil {ctx : Context} (h : ctx.Stands src t settings) :
    ctx.Looked marks src t [] ctx :=
  ⟨h.holds, rfl, rfl, .unread rfl, fun _ hk => absurd hk List.not_mem_nil⟩

theorem Looked.trans {ctx ctx' ctx'' : Context} {ks ls : List Int}
    (h : ctx.Looked marks src t ks ctx') (h' : ctx'.Looked marks src t ls ctx'') :
    ctx.Looked marks src t (ks ++ ls) ctx'' := by
  refine ⟨h'.holds, ?_, h'.settings_eq.trans h.settings_eq, h.marked.trans h'.marked, ?_⟩
  · rw [h'.length, h.length, Cache.filledTo_append]
  · intro k hk
    exact (List.mem_append.mp hk).elim (h.nonneg k) (h'.nonneg k)

/-- States in range stay in range. -/
theorem Stands.inRange {ctx ctx' : Context} {ks : List Int} (h : ctx.Stands src t settings)
    (hl : ctx.Looked marks src t ks ctx') {s : State} (hs : s.InRange ctx.cache) :
    s.InRange ctx'.cache := by
  refine h.holds.inRange_mono hl.holds ?_ hs
  rw [hl.length]
  exact Cache.le_filledTo _ _

end Context

/-! ## Endings and results -/

/-- An ending has a result, up to a relation of the values, and a property of its context. -/
inductive Ending.Shows (after : Context → Prop) (same : α → β → Context → Prop) :
    Ending Context α → Option (Except Fault β) → Prop
  | done {a : α} {b : β} {ctx : Context} (h : after ctx) (hab : same a b ctx) :
      Shows after same (.done a ctx) (some (.ok b))
  | raised {fault : Fault} {ctx : Context} (h : after ctx) :
      Shows after same (.raised fault ctx) (some (.error fault))
  | unfinished : Shows after same .unfinished none

/-- A run from a context and a reading proceed in step. -/
def Run.Reads (marks : Marks) (src : Producer) (t : TokenStream) (budget : Nat) (ctx : Context)
    (same : α → β → Context → Prop) (x : Run Context α) (y : Reading β) : Prop :=
  (x.run budget ctx).Shows (ctx.Looked marks src t y.examined) same y.result

namespace Run.Reads

variable {ctx : Context} {same : α → β → Context → Prop} {same' : γ → δ → Context → Prop}

theorem pure (h : ctx.Stands src t settings) {a : α} {b : β} (hab : same a b ctx) :
    Reads marks src t budget ctx same (Pure.pure a) (Pure.pure b) :=
  .done h.looked_nil hab

theorem raise (h : ctx.Stands src t settings) (fault : Fault) :
    Reads marks src t budget ctx same (Run.raise fault) (Reading.raise fault) :=
  .raised h.looked_nil

/-- One after the other: what follows runs in the context that the first part has left. -/
theorem bind {x : Run Context α} {y : Reading β} {f : α → Run Context γ} {g : β → Reading δ}
    (hx : Reads marks src t budget ctx same x y)
    (hf : ∀ a b ctx', ctx.Looked marks src t y.examined ctx' → same a b ctx' →
      Reads marks src t budget ctx' same' (f a) (g b)) :
    Reads marks src t budget ctx same' (x >>= f) (y >>= g) := by
  unfold Reads at hx ⊢
  rw [run_bind]
  cases hy : y.result with
  | none =>
      rw [hy] at hx
      cases hrun : x.run budget ctx <;> rw [hrun] at hx <;> cases hx
      rw [Reading.bind_of_unfinished hy]
      exact .unfinished
  | some result =>
      rw [hy] at hx
      cases hrun : x.run budget ctx <;> rw [hrun] at hx <;> cases hx
      case done a ctx' b hl hab =>
        rw [Reading.bind_of_ok hy]
        have hnext := hf a b ctx' hl hab
        unfold Reads at hnext
        simp only [Ending.andThen]
        cases hr : (f a).run budget ctx' <;> rw [hr] at hnext <;>
          generalize (g b).result = r at hnext ⊢ <;> cases hnext
        · exact .done (hl.trans ‹_›) ‹_›
        · exact .raised (hl.trans ‹_›)
        · exact .unfinished
      case raised fault ctx' hl =>
        rw [Reading.bind_of_error hy]
        exact .raised hl

/-- The run has ended already, and the reading goes on without looking. -/
theorem after {x : Run Context α} {y : Reading β} {g : β → Reading δ}
    {same' : α → δ → Context → Prop} (hx : Reads marks src t budget ctx same x y)
    (hg : ∀ a b ctx', ctx.Looked marks src t y.examined ctx' → same a b ctx' →
      Reads marks src t budget ctx' same' (Pure.pure a) (g b)) :
    Reads marks src t budget ctx same' x (y >>= g) := by
  rw [← bind_pure x]
  exact hx.bind hg

/-- The guard that a repetition reads is that of the settings. -/
theorem guarded (h : ctx.Stands src t settings) {f : Bool → Run Context α} {y : Reading β}
    (hf : Reads marks src t budget ctx same (f settings.guard.truth) y) :
    Reads marks src t budget ctx same (Parser.guarded >>= f) y := by
  rw [← h.settings_eq] at hf
  exact hf

end Run.Reads

end PullParse
