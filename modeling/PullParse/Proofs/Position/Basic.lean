import PullParse.Proofs.Cache.Reads

/-!
# Positions on a growing cache

A state passes to another one when the tokens between them are cached and none
is the end token. What is passed stays passed however the cache grows. Two runs
agree when they end in the same way, having done nothing to the cache but read
it, with a value that is good on the cache they leave; this is what carries the
invariant of positions from part to part of a parser.
-/

namespace PullParse

namespace Cache

/-- A read at the position would skip tokens, and is refused. -/
def Ahead (c : Cache) (position : Int) : Prop :=
  c.terminated = false ∧ (c.length : Int) < position

instance (c : Cache) (position : Int) : Decidable (c.Ahead position) :=
  inferInstanceAs (Decidable (_ ∧ _))

/-- The second state is not before the first, and every token from the first up to the second is
cached and no end token. -/
def Passes (c : Cache) (s s' : State) : Prop :=
  s.position ≤ s'.position ∧
    ∀ k < s'.position.toNat, s.position.toNat ≤ k →
      ((c.tokens[k]?).any fun token => !token.isEof) = true

instance (c : Cache) (s s' : State) : Decidable (c.Passes s s') :=
  inferInstanceAs (Decidable (_ ∧ _))

namespace Passes

variable {c c' : Cache} {s s' s'' : State}

theorem refl (c : Cache) (s : State) : c.Passes s s := by
  refine ⟨le_rfl, fun k hlt hle => ?_⟩
  exact absurd hlt (not_lt.mpr hle)

theorem trans (h : c.Passes s s') (h' : c.Passes s' s'') : c.Passes s s'' := by
  refine ⟨le_trans h.1 h'.1, fun k hlt hle => ?_⟩
  rcases Nat.lt_or_ge k s'.position.toNat with hk | hk
  · exact h.2 k hk hle
  · exact h'.2 k hlt hk

/-- What is passed stays passed. -/
theorem grows (h : c.Passes s s') (hc : c.GrowsTo c') : c'.Passes s s' := by
  refine ⟨h.1, fun k hlt hle => ?_⟩
  have hk := h.2 k hlt hle
  cases hget : c.tokens[k]? with
  | none => simp [hget] at hk
  | some token =>
      rw [hget] at hk
      rw [hc.getElem?_tokens hget]
      exact hk

/-- A cached token that is not the end is passed. -/
theorem next {token : Token} (h0 : 0 ≤ s.position)
    (hget : c.tokens[s.position.toNat]? = some token) (he : token.isEof = false) (u : Value) :
    c.Passes s ⟨s.position + 1, u⟩ := by
  refine ⟨by simp, fun k hlt hle => ?_⟩
  have hk : k = s.position.toNat := by
    simp only at hlt
    omega
  rw [hk, hget]
  simp [he]

end Passes

/-- The state is in range, and passed from the origin. -/
structure OnTrack (c : Cache) (origin s : State) : Prop where
  inRange : s.InRange c
  passes : c.Passes origin s

theorem OnTrack.grows {c c' : Cache} {origin s : State} (h : c.OnTrack origin s)
    (hc : c.GrowsTo c') : c'.OnTrack origin s := ⟨h.inRange.grows hc, h.passes.grows hc⟩

theorem OnTrack.withUserData {c : Cache} {origin s : State} (h : c.OnTrack origin s) (u : Value) :
    c.OnTrack origin { s with userData := u } := ⟨h.inRange, h.passes⟩

end Cache

theorem State.InRange.onTrack {s : State} {c : Cache} (h : s.InRange c) : c.OnTrack s s :=
  ⟨h, .refl c s⟩

/-- At a state in range no read is refused. -/
theorem State.InRange.not_ahead {s : State} {c : Cache} (h : s.InRange c) :
    ¬c.Ahead s.position := fun hahead => absurd h.2.1 (not_le.mpr hahead.2)

/-- A match is on track from the origin. -/
def Outcome.OnTrack (origin : State) : Outcome → Cache → Prop
  | .matched _ s, c => c.OnTrack origin s
  | .noMatch, _ => True

/-! ## Runs that agree -/

/-- The run has only read the cache, and its value is good on the cache that it leaves. -/
inductive Ending.Grown {α : Type} (c : Cache) (good : α → Cache → Prop) :
    Ending Context α → Prop
  | done {a : α} {ctx : Context} (h : c.GrowsTo ctx.cache) (hgood : good a ctx.cache) :
      Grown c good (.done a ctx)
  | raised {fault : Fault} {ctx : Context} (h : c.GrowsTo ctx.cache) :
      Grown c good (.raised fault ctx)
  | unfinished : Grown c good .unfinished

/-- From a context two runs end in the same way, and well. -/
structure Run.Agree {α : Type} (budget : Nat) (ctx : Context) (good : α → Cache → Prop)
    (m n : Run Context α) : Prop where
  eq : n.run budget ctx = m.run budget ctx
  grown : (m.run budget ctx).Grown ctx.cache good

namespace Run.Agree

variable {α β : Type} {budget : Nat} {ctx : Context} {good : α → Cache → Prop}
variable {good' : β → Cache → Prop} {m n : Run Context α}

/-- A run that ends like this agrees with itself. -/
theorem self (h : (m.run budget ctx).Grown ctx.cache good) : Agree budget ctx good m m := ⟨rfl, h⟩

theorem pure {a : α} (h : good a ctx.cache) :
    Agree budget ctx good (Pure.pure a) (Pure.pure a) := self (.done (.refl _) h)

theorem raise (fault : Fault) : Agree budget ctx good (Run.raise fault) (Run.raise fault) :=
  self (.raised (.refl _))

/-- One after the other: what follows runs on the cache that the first part has left. -/
theorem bind {f g : α → Run Context β} (h : Agree budget ctx good m n)
    (hf : ∀ a ctx', ctx.cache.GrowsTo ctx'.cache → good a ctx'.cache →
      Agree budget ctx' good' (f a) (g a)) :
    Agree budget ctx good' (m >>= f) (n >>= g) := by
  have hgrown := h.grown
  constructor
  · rw [run_bind, run_bind, h.eq]
    cases hm : m.run budget ctx with
    | done a ctx' =>
        rw [hm] at hgrown
        cases hgrown with
        | done hc hgood => exact (hf a ctx' hc hgood).eq
    | raised fault ctx' => rfl
    | unfinished => rfl
  · rw [run_bind]
    cases hm : m.run budget ctx with
    | done a ctx' =>
        rw [hm] at hgrown
        cases hgrown with
        | done hc hgood =>
            have hnext := (hf a ctx' hc hgood).grown
            simp only [Ending.andThen]
            generalize (f a).run budget ctx' = e at hnext
            cases hnext with
            | done h' hgood' => exact .done (hc.trans h') hgood'
            | raised h' => exact .raised (hc.trans h')
            | unfinished => exact .unfinished
    | raised fault ctx' =>
        rw [hm] at hgrown
        cases hgrown with
        | raised hc => exact .raised hc
    | unfinished => exact .unfinished

/-- Performing an action leaves the cache alone. -/
theorem perform (x : Action α) :
    Agree budget ctx (fun _ c => c = ctx.cache) (Run.perform x) (Run.perform x) := by
  refine self ?_
  simp only [Run.perform]
  cases x.result with
  | ok a => exact .done (.refl _) rfl
  | error fault => exact .raised (.refl _)

end Run.Agree

end PullParse
