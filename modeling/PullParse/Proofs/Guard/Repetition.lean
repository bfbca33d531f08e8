import PullParse.Proofs.Guard.Combinators
import PullParse.Proofs.Progress.Consuming
import PullParse.Proofs.Reading.Repetition

/-!
# Repetitions run in lockstep

A round of a repetition either moves on, and then no guard has anything to say,
or it stalls, which is where the first run ends. Rounds that move on are as many
as there are positions left, so on an input that ends the budget is enough.
-/

namespace PullParse

/-- The rounds left are enough from the state on. -/
def Regime.Suffices (R : Regime) (s : State) (left : Nat) : Prop :=
  R.unending ∨ (R.last : Int) < s.position + left

namespace Regime.Suffices

variable {R : Regime} {s s' : State} {left : Nat}

theorem next (h : R.Suffices s (left + 1)) (hmoved : s.position < s'.position) :
    R.Suffices s' left := by
  refine h.imp_right fun hlt => ?_
  push_cast at hlt
  omega

/-- No round is left only where the budget may run out. -/
theorem unending (h : R.Suffices s 0) {ctx : Context} (hctx : ctx.Under R)
    (hs : s.InRange ctx.cache) : R.unending := by
  rcases h with h | hlt
  · exact h
  rcases hctx.ends with h | hends
  · exact h
  · have hle := hends.position_le hs
    omega

/-- A budget beyond the end of the input is enough from every state in range. -/
theorem start {budget : Nat} (h : R.unending ∨ R.last < budget) {c : Cache} (hs : s.InRange c) :
    R.Suffices s budget := by
  refine h.imp_right fun hlt => ?_
  have h0 := hs.1
  omega

end Regime.Suffices

namespace Parser.Lockstep

open ReadsAs (roundsSeparated_eq)

variable {R : Regime} {budget : Nat} {p pm q qm : Parser}

/-- What follows a round that has matched. A round in place stalls the first run, and cannot happen
where it may not. -/
theorem afterMatch {α : Type} (hsafe : R.stalls ∨ p.Advances budget) {s s' : State}
    {ctx ctx' : Context} {value : Value} (hs : s.InRange ctx.cache)
    (hrun : (p s).run budget ctx = .done (.matched value s') ctx')
    (hout : ctx'.cache.OnTrack s s') (name : String) {m x y : Run Context α}
    (hnext : s.position < s'.position → Run.Lockstep R budget ctx' m x y) :
    Run.Lockstep R budget ctx'
      (if stalls R.settings.guard.truth s s' then Run.raise (stall name s) else m)
      (if stalls R.settings.guard.truth s s' then Run.raise (stall name s) else x)
      (if stalls R.guard.truth s s' then Run.raise (stall name s) else y) := by
  rcases lt_or_eq_of_le hout.passes.1 with hmoved | hplace
  · have hgoes : ∀ guard, stalls guard s s' = false := by
      intro guard
      have hne : ¬s'.position = s.position := by omega
      simp [stalls, hne]
    rw [hgoes, hgoes]
    exact hnext hmoved
  · -- a round in place: the guard of the first run breaks it off, or the criterion excludes it
    rcases hsafe with hstalls | hadvances
    · have hstall : stalls R.settings.guard.truth s s' = true := by
        simp [stalls, R.guarded hstalls, hplace]
      rw [hstall]
      exact .stalled hstalls (.refl ctx')
    · have hmoved := hadvances s ctx value s' ctx' hs hrun
      omega

theorem rounds (name : String) (hstep : KeepsStep budget p p) (hp : Lockstep R budget pm p)
    (hsafe : R.stalls ∨ p.Advances budget) (left : Nat) :
    ∀ (s : State) (collected : List Value) (ctx : Context), ctx.Under R → s.InRange ctx.cache →
      R.Suffices s left →
      Run.Lockstep R budget ctx (Parser.rounds name R.settings.guard.truth pm left s collected)
        (Parser.rounds name R.settings.guard.truth p left s collected)
        (Parser.rounds name R.guard.truth p left s collected) := by
  induction left with
  | zero => exact fun s _ ctx hctx hs hleft => .unfinished (hleft.unending hctx hs)
  | succ left ih =>
      intro s collected ctx hctx hs hleft
      refine (hp s ctx hctx hs).bind ?_
      intro outcome ctx' hrun hkept
      obtain ⟨hgrows, hout⟩ := hstep.done hs hrun
      cases outcome with
      | noMatch => exact .pure _
      | matched value s' =>
          refine afterMatch hsafe hs hrun hout name fun hmoved => ?_
          exact ih s' _ ctx' (hctx.grows hkept.settings_eq hgrows) hout.inRange (hleft.next hmoved)

theorem roundsUntil (hstep : KeepsStep budget p p) (hp : Lockstep R budget pm p)
    (hstep' : KeepsStep budget q q) (hq : Lockstep R budget qm q)
    (hsafe : R.stalls ∨ p.Advances budget) (left : Nat) :
    ∀ (s : State) (collected : List Value) (ctx : Context), ctx.Under R → s.InRange ctx.cache →
      R.Suffices s left →
      Run.Lockstep R budget ctx (Parser.roundsUntil R.settings.guard.truth pm qm left s collected)
        (Parser.roundsUntil R.settings.guard.truth p q left s collected)
        (Parser.roundsUntil R.guard.truth p q left s collected) := by
  induction left with
  | zero => exact fun s _ ctx hctx hs hleft => .unfinished (hleft.unending hctx hs)
  | succ left ih =>
      intro s collected ctx hctx hs hleft
      refine (hq s ctx hctx hs).bind ?_
      intro last ctx₁ hrun₁ hkept₁
      obtain ⟨hgrows₁, -⟩ := hstep'.done hs hrun₁
      have hctx₁ := hctx.grows hkept₁.settings_eq hgrows₁
      have hs₁ := hs.grows hgrows₁
      cases last with
      | matched _ s' => exact .pure _
      | noMatch =>
          refine (hp s ctx₁ hctx₁ hs₁).bind ?_
          intro outcome ctx₂ hrun₂ hkept₂
          obtain ⟨hgrows₂, hout⟩ := hstep.done hs₁ hrun₂
          cases outcome with
          | noMatch => exact .pure _
          | matched value s' =>
              refine afterMatch hsafe hs₁ hrun₂ hout "many_until" fun hmoved => ?_
              exact ih s' _ ctx₂ (hctx₁.grows hkept₂.settings_eq hgrows₂) hout.inRange
                (hleft.next hmoved)

/-- A round is a separator and the element behind it. -/
theorem roundsSeparated (hstep : KeepsStep budget p p) (hp : Lockstep R budget pm p)
    (hstep' : KeepsStep budget q q) (hq : Lockstep R budget qm q)
    (hsafe : R.stalls ∨ (q.andThen p).Advances budget) (left : Nat) {s : State}
    (collected : List Value) {ctx : Context} (hctx : ctx.Under R) (hs : s.InRange ctx.cache)
    (hleft : R.Suffices s left) :
    Run.Lockstep R budget ctx
      (Parser.roundsSeparated R.settings.guard.truth pm qm left s collected)
      (Parser.roundsSeparated R.settings.guard.truth p q left s collected)
      (Parser.roundsSeparated R.guard.truth p q left s collected) := by
  rw [roundsSeparated_eq, roundsSeparated_eq, roundsSeparated_eq]
  have hrounds := rounds "sep_by1" (hstep'.andThen hstep) (hq.andThen hstep' hp) hsafe left s
    collected ctx hctx hs hleft
  exact hrounds.bind fun _ _ _ _ => .pure _

theorem countRounds (hstep : KeepsStep budget p p) (hp : Lockstep R budget pm p) (left : Nat) :
    ∀ (s : State) (collected : List Value) (ctx : Context), ctx.Under R → s.InRange ctx.cache →
      Run.Lockstep R budget ctx (Parser.countRounds pm left s collected)
        (Parser.countRounds p left s collected) (Parser.countRounds p left s collected) := by
  induction left with
  | zero => exact fun _ _ _ _ _ => .pure _
  | succ left ih =>
      intro s collected ctx hctx hs
      refine (hp s ctx hctx hs).bind ?_
      intro outcome ctx' hrun hkept
      obtain ⟨hgrows, hout⟩ := hstep.done hs hrun
      cases outcome with
      | noMatch => exact .pure _
      | matched value s' => exact ih s' _ ctx' (hctx.grows hkept.settings_eq hgrows) hout.inRange

/-! ## Whole repetitions -/

/-- A repetition with some value made of the values of its rounds. -/
theorem repeating (name : String) (f : List Value → Value) (hbudget : R.unending ∨ R.last < budget)
    (hstep : KeepsStep budget p p) (hp : Lockstep R budget pm p)
    (hsafe : R.stalls ∨ p.Advances budget) :
    Lockstep R budget
      (fun s => do
        let (values, s') ← Parser.repeated name pm s
        return .matched (f values) s')
      (fun s => do
        let (values, s') ← Parser.repeated name p s
        return .matched (f values) s') := by
  intro s ctx hctx hs
  have hrounds : Run.Lockstep R budget ctx (Parser.repeated name pm s) (Parser.repeated name p s)
      (Parser.repeated name p s) :=
    .guarded hctx (rounds name hstep hp hsafe budget s [] ctx hctx hs (.start hbudget hs))
  exact hrounds.bind fun _ _ _ _ => .pure _

/-- A first match that has to be made, and what follows it. -/
theorem mandatory {f fm : Value → Parser} (hstep : KeepsStep budget p p)
    (hp : Lockstep R budget pm p) (hf : ∀ value, Lockstep R budget (fm value) (f value)) :
    Lockstep R budget
      (fun s => do
        match ← pm s with
        | .noMatch => return .noMatch
        | .matched value s' => fm value s')
      (fun s => do
        match ← p s with
        | .noMatch => return .noMatch
        | .matched value s' => f value s') := by
  have hbind := bind hstep hp hf
  rw [← mandatory_eq_bind, ← mandatory_eq_bind] at hbind
  exact hbind

theorem many (hbudget : R.unending ∨ R.last < budget) (hstep : KeepsStep budget p p)
    (hp : Lockstep R budget pm p) (hsafe : R.stalls ∨ p.Advances budget) :
    Lockstep R budget pm.many p.many :=
  repeating "many" .list hbudget hstep hp hsafe

theorem skipMany (hbudget : R.unending ∨ R.last < budget) (hstep : KeepsStep budget p p)
    (hp : Lockstep R budget pm p) (hsafe : R.stalls ∨ p.Advances budget) :
    Lockstep R budget pm.skipMany p.skipMany :=
  repeating "skip_many" (fun _ => .null) hbudget hstep hp hsafe

theorem many1 (hbudget : R.unending ∨ R.last < budget) (hstep : KeepsStep budget p p)
    (hp : Lockstep R budget pm p) (hsafe : R.stalls ∨ p.Advances budget) :
    Lockstep R budget pm.many1 p.many1 :=
  mandatory hstep hp fun value =>
    repeating "many1" (fun values => .list (value :: values)) hbudget hstep hp hsafe

theorem skipMany1 (hbudget : R.unending ∨ R.last < budget) (hstep : KeepsStep budget p p)
    (hp : Lockstep R budget pm p) (hsafe : R.stalls ∨ p.Advances budget) :
    Lockstep R budget pm.skipMany1 p.skipMany1 :=
  mandatory hstep hp fun _ => repeating "skip_many1" (fun _ => .null) hbudget hstep hp hsafe

theorem manyUntil (hbudget : R.unending ∨ R.last < budget) (hstep : KeepsStep budget p p)
    (hp : Lockstep R budget pm p) (hstep' : KeepsStep budget q q) (hq : Lockstep R budget qm q)
    (hsafe : R.stalls ∨ p.Advances budget) :
    Lockstep R budget (pm.manyUntil qm) (p.manyUntil q) := by
  intro s ctx hctx hs
  exact .guarded hctx
    (roundsUntil hstep hp hstep' hq hsafe budget s [] ctx hctx hs (.start hbudget hs))

theorem sepBy1 (hbudget : R.unending ∨ R.last < budget) (hstep : KeepsStep budget p p)
    (hp : Lockstep R budget pm p) (hstep' : KeepsStep budget q q) (hq : Lockstep R budget qm q)
    (hsafe : R.stalls ∨ (q.andThen p).Advances budget) :
    Lockstep R budget (pm.sepBy1 qm) (p.sepBy1 q) := by
  refine mandatory hstep hp ?_
  intro value s ctx hctx hs
  exact .guarded hctx
    (roundsSeparated hstep hp hstep' hq hsafe budget [value] hctx hs (.start hbudget hs))

theorem count (n : Int) (hstep : KeepsStep budget p p) (hp : Lockstep R budget pm p) :
    Lockstep R budget (Parser.count n pm) (Parser.count n p) := by
  intro s ctx hctx hs
  exact countRounds hstep hp n.toNat s [] ctx hctx hs

end Parser.Lockstep

end PullParse
