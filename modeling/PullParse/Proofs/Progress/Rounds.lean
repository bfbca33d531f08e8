import PullParse.Proofs.Guard.Repetition
import PullParse.Proofs.Reading.Instrumented

/-!
# How often a repetition runs its body

The marks in the journal count how often marked parsers are entered. With a mark
around its body, a guarded repetition leaves at most one mark for each position
from its start to the end of the input, since every round but the last one moves
on, and one more for a first match that has to be made whatever it consumes.
-/

namespace PullParse

variable {α β : Type}

/-- The run ends under the settings it has started with, and enters marked parsers at most `n`
times. -/
def Run.Tallies (budget : Nat) (ctx : Context) (n : Nat) (x : Run Context α) : Prop :=
  ∃ ctx', (x.run budget ctx).final? = some ctx' ∧
    ctx'.session.settings = ctx.session.settings ∧
    ctx'.session.entered.length ≤ ctx.session.entered.length + n

namespace Run.Tallies

variable {budget : Nat} {ctx : Context} {n k : Nat} {x : Run Context α}

theorem pure (a : α) : Tallies budget ctx n (Pure.pure a) :=
  ⟨ctx, rfl, rfl, Nat.le_add_right _ _⟩

theorem raise (fault : Fault) : Tallies budget ctx n (Run.raise fault : Run Context α) :=
  ⟨ctx, rfl, rfl, Nat.le_add_right _ _⟩

theorem mono (h : Tallies budget ctx n x) (hle : n ≤ k) : Tallies budget ctx k x := by
  obtain ⟨ctx', hfinal, hsettings, hlength⟩ := h
  exact ⟨ctx', hfinal, hsettings, by omega⟩

/-- Under an active guard, what reads the guard goes on with it. -/
theorem guarded (hguard : ctx.session.settings.guard.truth = true) {f : Bool → Run Context α}
    (h : Tallies budget ctx n (f true)) : Tallies budget ctx n (Parser.guarded >>= f) := by
  rw [← hguard] at h
  exact h

/-- One after the other, the marks add up. -/
theorem bind {f : α → Run Context β} (hx : Tallies budget ctx n x)
    (hf : ∀ a ctx', x.run budget ctx = .done a ctx' →
      ctx'.session.settings = ctx.session.settings → Tallies budget ctx' k (f a)) :
    Tallies budget ctx (n + k) (x >>= f) := by
  obtain ⟨ctx₁, hfinal, hsettings, hlength⟩ := hx
  unfold Tallies
  rw [run_bind]
  cases hrun : x.run budget ctx with
  | done a ctx' =>
      rw [hrun] at hfinal
      cases hfinal
      obtain ⟨ctx₂, hfinal', hsettings', hlength'⟩ := hf a ctx₁ hrun hsettings
      exact ⟨ctx₂, hfinal', hsettings'.trans hsettings, by omega⟩
  | raised fault ctx' =>
      rw [hrun] at hfinal
      exact ⟨ctx₁, hfinal, hsettings, by omega⟩
  | unfinished =>
      rw [hrun] at hfinal
      cases hfinal

/-- Behind a round only one that has moved on goes on. -/
theorem unlessStalled {s s' : State} (hle : s.position ≤ s'.position) {fault : Fault}
    (hnext : s.position < s'.position → Tallies budget ctx n x) :
    Tallies budget ctx n (if Parser.stalls true s s' then Run.raise fault else x) := by
  split
  · exact raise fault
  · rename_i hgoes
    have hne : ¬s'.position = s.position := by simpa [Parser.stalls] using hgoes
    exact hnext (by omega)

end Run.Tallies

/-- Every run from a state in range ends, and enters marked parsers at most `n` times. -/
def Parser.Tallies (R : Regime) (budget n : Nat) (p : Parser) : Prop :=
  ∀ (s : State) (ctx : Context), ctx.Under R → s.InRange ctx.cache →
    Run.Tallies budget ctx n (p s)

/-- A parser in lockstep marks nothing. -/
theorem Parser.Lockstep.tallies {R : Regime} {budget : Nat} {p pm : Parser}
    (h : Lockstep R budget pm p) (hends : ¬R.unending) : p.Tallies R budget 0 := by
  intro s ctx hctx hs
  obtain ⟨ctx', hfinal, hkept⟩ := (h s ctx hctx hs).exists_final hends
  exact ⟨ctx', hfinal, hkept.settings_eq, by rw [hkept.entered_eq]; rfl⟩

namespace Parser.Tallies

open ReadsAs (roundsSeparated_eq)

variable {R : Regime} {budget n k : Nat} {p q : Parser}

theorem traced (id : Value) (hp : p.Tallies R budget n) :
    (p.traced id).Tallies R budget (n + 1) := by
  intro s ctx hctx hs
  obtain ⟨ctx', hfinal, hsettings, hlength⟩ :=
    hp s (ctx.mapSession fun session => session.write (.enter id s.position))
      ⟨hctx.settings_eq, hctx.ends⟩ hs
  have hentered : (ctx.session.write (.enter id s.position)).entered.length =
      ctx.session.entered.length + 1 := by
    rw [Session.entered_write, List.length_append]
    rfl
  change ctx'.session.entered.length ≤
    (ctx.session.write (.enter id s.position)).entered.length + n at hlength
  unfold Run.Tallies
  simp only [Parser.traced, Run.run_bind, Run.write, Run.modify, Run.attempt, Ending.andThen,
    if_true]
  cases hrun : (p s).run budget
      (ctx.mapSession fun session => session.write (.enter id s.position)) with
  | done outcome ctx₁ =>
      rw [hrun] at hfinal
      cases hfinal
      refine ⟨_, rfl, hsettings, ?_⟩
      show (ctx'.session.write (outcome.event id)).entered.length ≤ _
      rw [Session.entered_event]
      omega
  | raised fault ctx₁ =>
      rw [hrun] at hfinal
      cases hfinal
      refine ⟨_, rfl, hsettings, ?_⟩
      show (ctx'.session.write (.raised id fault)).entered.length ≤ _
      rw [Session.entered_raised]
      omega
  | unfinished =>
      rw [hrun] at hfinal
      cases hfinal

theorem andThen (hstep : KeepsStep budget p p) (hp : p.Tallies R budget n)
    (hq : q.Tallies R budget k) : (p.andThen q).Tallies R budget (n + k) := by
  intro s ctx hctx hs
  refine (hp s ctx hctx hs).bind ?_
  intro outcome ctx' hrun hsettings
  obtain ⟨hgrows, hout⟩ := hstep.done hs hrun
  cases outcome with
  | matched _ s' => exact hq s' ctx' (hctx.grows hsettings hgrows) hout.inRange
  | noMatch => exact .pure _

/-! ## Rounds

Where `n` rounds lead beyond the end of the input, no more than `n` are made. -/

/-- The end of the input is not behind any state in range. -/
theorem position_le (hends : ¬R.unending) {s : State} {ctx : Context} (hctx : ctx.Under R)
    (hs : s.InRange ctx.cache) : s.position ≤ R.last :=
  (hctx.ends.resolve_left hends).position_le hs

theorem rounds (name : String) (hends : ¬R.unending) (hstep : KeepsStep budget p p)
    (hp : p.Tallies R budget 1) (n : Nat) :
    ∀ (left : Nat) (s : State) (collected : List Value) (ctx : Context), ctx.Under R →
      s.InRange ctx.cache → n ≤ left → (R.last : Int) < s.position + n →
      Run.Tallies budget ctx n (Parser.rounds name true p left s collected) := by
  induction n with
  | zero =>
      -- no state in range is behind the end of the input
      intro left s collected ctx hctx hs _ hlast
      have hle := position_le hends hctx hs
      omega
  | succ n ih =>
      intro left s collected ctx hctx hs hleft hlast
      obtain ⟨left, rfl⟩ : ∃ l, left = l + 1 := ⟨left - 1, by omega⟩
      rw [Nat.add_comm n 1]
      refine (hp s ctx hctx hs).bind ?_
      intro outcome ctx' hrun hsettings
      obtain ⟨hgrows, hout⟩ := hstep.done hs hrun
      cases outcome with
      | noMatch => exact .pure _
      | matched value s' =>
          refine .unlessStalled hout.passes.1 fun hmoved => ?_
          exact ih left s' _ ctx' (hctx.grows hsettings hgrows) hout.inRange (by omega) (by omega)

theorem roundsUntil (hends : ¬R.unending) (hstep : KeepsStep budget p p)
    (hp : p.Tallies R budget 1) (hstep' : KeepsStep budget q q) (hq : q.Tallies R budget 0)
    (n : Nat) :
    ∀ (left : Nat) (s : State) (collected : List Value) (ctx : Context), ctx.Under R →
      s.InRange ctx.cache → n ≤ left → (R.last : Int) < s.position + n →
      Run.Tallies budget ctx n (Parser.roundsUntil true p q left s collected) := by
  induction n with
  | zero =>
      intro left s collected ctx hctx hs _ hlast
      have hle := position_le hends hctx hs
      omega
  | succ n ih =>
      intro left s collected ctx hctx hs hleft hlast
      obtain ⟨left, rfl⟩ : ∃ l, left = l + 1 := ⟨left - 1, by omega⟩
      -- the terminator is not marked, the body behind it is
      rw [← Nat.zero_add (n + 1)]
      refine (hq s ctx hctx hs).bind ?_
      intro last ctx₁ hrun₁ hsettings₁
      obtain ⟨hgrows₁, -⟩ := hstep'.done hs hrun₁
      have hctx₁ := hctx.grows hsettings₁ hgrows₁
      have hs₁ := hs.grows hgrows₁
      cases last with
      | matched _ s' => exact .pure _
      | noMatch =>
          rw [Nat.add_comm n 1]
          refine (hp s ctx₁ hctx₁ hs₁).bind ?_
          intro outcome ctx₂ hrun₂ hsettings₂
          obtain ⟨hgrows₂, hout⟩ := hstep.done hs₁ hrun₂
          cases outcome with
          | noMatch => exact .pure _
          | matched value s' =>
              refine .unlessStalled hout.passes.1 fun hmoved => ?_
              exact ih left s' _ ctx₂ (hctx₁.grows hsettings₂ hgrows₂) hout.inRange (by omega)
                (by omega)

/-- A round is a separator, which is not marked, and the element behind it. -/
theorem roundsSeparated (hends : ¬R.unending) (hstep : KeepsStep budget p p)
    (hp : p.Tallies R budget 1) (hstep' : KeepsStep budget q q) (hq : q.Tallies R budget 0)
    (n left : Nat) (s : State) (collected : List Value) (ctx : Context) (hctx : ctx.Under R)
    (hs : s.InRange ctx.cache) (hleft : n ≤ left) (hlast : (R.last : Int) < s.position + n) :
    Run.Tallies budget ctx n (Parser.roundsSeparated true p q left s collected) := by
  rw [roundsSeparated_eq]
  have hrounds := rounds "sep_by1" hends (hstep'.andThen hstep) (hq.andThen hstep' hp) n left s
    collected ctx hctx hs hleft hlast
  exact hrounds.bind (k := 0) fun _ _ _ _ => .pure _

end Parser.Tallies

end PullParse
