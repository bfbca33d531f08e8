import PullParse.Proofs.Position.Basic
import PullParse.Parser.UserData
import PullParse.Parser.Observed

/-!
# Combinators keep positions in range

Two parsers keep step when from every state on track they run in the same way
and a match is on track again. If the parts of a combinator keep step with other
parts, so do the whole parsers; a part that checks what it is handed and what it
returns may thus take the place of one that does not.
-/

namespace PullParse

/-- From every state on track the two parsers run in the same way, and match on track. -/
def Parser.KeepsStep (budget : Nat) (p q : Parser) : Prop :=
  ∀ (origin s : State) (ctx : Context), ctx.cache.OnTrack origin s →
    Run.Agree budget ctx (Outcome.OnTrack origin) (p s) (q s)

namespace Parser.KeepsStep

open Run (Agree)

variable {budget : Nat} {p p' q q' : Parser}

theorem self (h : KeepsStep budget p q) : KeepsStep budget p p :=
  fun origin s ctx hs => .self (h origin s ctx hs).grown

/-- What a parser has done to the cache when it ends with an outcome, and where a match stands. -/
theorem done (h : KeepsStep budget p q) {s : State} {ctx ctx' : Context} {outcome : Outcome}
    (hs : s.InRange ctx.cache) (hrun : (p s).run budget ctx = .done outcome ctx') :
    ctx.cache.GrowsTo ctx'.cache ∧ outcome.OnTrack s ctx'.cache := by
  have hgrown := (h s s ctx hs.onTrack).grown
  rw [hrun] at hgrown
  cases hgrown with
  | done hgrows hgood => exact ⟨hgrows, hgood⟩

/-! ## Single tokens -/

theorem current (budget : Nat) {s : State} {ctx : Context} (hs : s.InRange ctx.cache) :
    Agree budget ctx (fun token c => c.tokens[s.position.toNat]? = some token)
      (Parser.current s) (Parser.current s) := by
  obtain ⟨cache, session⟩ := ctx
  refine .self ?_
  have hgrows := cache.growsTo_tokenAt s.position
  cases hread : cache.tokenAt s.position with
  | mk answer c' =>
      rw [hread] at hgrows
      simp only [Parser.current, Run.tokenAt, Context.tokenAt, hread]
      cases answer with
      | ok token => exact .done hgrows (Cache.getElem?_of_tokenAt hs hread)
      | error fault => exact .raised hgrows

/-- A state on a cached token steps over it, unless it is the end. -/
theorem advance {origin s : State} {ctx : Context} {token : Token}
    (hs : ctx.cache.OnTrack origin s) (hget : ctx.cache.tokens[s.position.toNat]? = some token) :
    Agree budget ctx (fun s' c => c.OnTrack origin s') (Parser.advance s) (Parser.advance s) := by
  refine (current budget hs.inRange).bind ?_
  intro token' ctx' hgrows hget'
  have hs' := hs.grows hgrows
  -- both reads are at the same position, so they find the same token
  have htoken : token' = token :=
    Option.some.inj (hget'.symm.trans (hgrows.getElem?_tokens hget))
  cases he : token'.isEof with
  | true => exact .pure hs'
  | false =>
      refine .pure ⟨Cache.inRange_next hs'.inRange hget' he _, ?_⟩
      exact hs'.passes.trans (.next hs'.inRange.1 hget' he _)

theorem satisfy (test : Value → Action Bool) :
    KeepsStep budget (Parser.satisfy test) (Parser.satisfy test) := by
  intro origin s ctx hs
  refine (current budget hs.inRange).bind ?_
  intro token ctx₁ hgrows hget
  have hs₁ := hs.grows hgrows
  refine (Agree.perform (test token.cls)).bind ?_
  intro passed ctx₂ _ hcache
  rw [← hcache] at hs₁ hget
  cases passed with
  | false => exact .pure trivial
  | true =>
      refine (advance hs₁ hget).bind ?_
      intro s' ctx₃ _ hs'
      exact .pure hs'

/-! ## Parsers in place -/

/-- A match in place, whatever becomes of the user data. -/
theorem inPlace (value data : State → Value) :
    KeepsStep budget (fun s => return .matched (value s) { s with userData := data s })
      (fun s => return .matched (value s) { s with userData := data s }) := by
  intro origin s ctx hs
  exact .pure (hs.withUserData _)

theorem raising (fault : State → Fault) :
    KeepsStep budget (fun s => Run.raise (fault s)) (fun s => Run.raise (fault s)) := by
  intro origin s ctx _
  exact .raise _

theorem popUserData : KeepsStep budget Parser.popUserData Parser.popUserData := by
  intro origin s ctx hs
  have hpop : Agree budget ctx (fun _ c => c = ctx.cache)
      (Run.ofExcept ((Stack.ofValue s.userData).bind Stack.pop))
      (Run.ofExcept ((Stack.ofValue s.userData).bind Stack.pop)) := by
    refine .self ?_
    simp only [Run.ofExcept]
    cases (Stack.ofValue s.userData).bind Stack.pop with
    | ok popped => exact .done (.refl _) rfl
    | error fault => exact .raised (.refl _)
  refine hpop.bind ?_
  intro popped ctx' hgrows _
  exact .pure ((hs.grows hgrows).withUserData _)

theorem activeSettings : KeepsStep budget Parser.activeSettings Parser.activeSettings := by
  intro origin s ctx hs
  exact .self (.done (.refl _) hs)

theorem changeSettings (changes : List (String × Value)) :
    KeepsStep budget (Parser.changeSettings changes) (Parser.changeSettings changes) := by
  intro origin s ctx hs
  refine .self ?_
  simp only [Parser.changeSettings, Run.run_bind, Run.settings, Ending.andThen, Run.ofExcept]
  cases ctx.session.settings.override changes with
  | ok changed => exact .done (.refl _) hs
  | error fault => exact .raised (.refl _)

theorem noting (notes : List Value) (hp : KeepsStep budget p q) :
    KeepsStep budget (Parser.noting notes p) (Parser.noting notes q) := by
  intro origin s ctx hs
  refine (Agree.perform ⟨notes, .ok ()⟩).bind ?_
  intro _ ctx' hgrows _
  exact hp origin s ctx' (hs.grows hgrows)

/-- Marks are left in the session, whatever the run does. -/
theorem traced (id : Value) (hp : KeepsStep budget p q) :
    KeepsStep budget (p.traced id) (q.traced id) := by
  intro origin s ctx hs
  have hmarked := hp origin s
    (ctx.mapSession fun session => session.write (.enter id s.position)) hs
  constructor
  · simp only [Parser.traced, Run.run_bind, Run.write, Run.modify, Run.attempt, Ending.andThen,
      hmarked.eq]
  · simp only [Parser.traced, Run.run_bind, Run.write, Run.modify, Run.attempt, Ending.andThen,
      if_true]
    have hgrown := hmarked.grown
    generalize (p s).run budget _ = e at hgrown
    cases hgrown with
    | done h hgood => exact .done h hgood
    | raised h => exact .raised h
    | unfinished => exact .unfinished

/-! ## Chaining and choosing -/

theorem bind {f g : Value → Parser} (hp : KeepsStep budget p q)
    (hf : ∀ value, KeepsStep budget (f value) (g value)) :
    KeepsStep budget (p.bind f) (q.bind g) := by
  intro origin s ctx hs
  refine (hp origin s ctx hs).bind ?_
  intro outcome ctx' _ hout
  cases outcome with
  | matched value s' => exact hf value origin s' ctx' hout
  | noMatch => exact .pure trivial

theorem andThen (hp : KeepsStep budget p q) (hp' : KeepsStep budget p' q') :
    KeepsStep budget (p.andThen p') (q.andThen q') := bind hp fun _ => hp'

theorem lookahead (hp : KeepsStep budget p q) : KeepsStep budget p.lookahead q.lookahead := by
  intro origin s ctx hs
  refine (hp origin s ctx hs).bind ?_
  intro outcome ctx' hgrows _
  cases outcome with
  | matched value _ => exact .pure (hs.grows hgrows)
  | noMatch => exact .pure trivial

theorem notFollowedBy (hp : KeepsStep budget p q) :
    KeepsStep budget p.notFollowedBy q.notFollowedBy := by
  intro origin s ctx hs
  refine (hp origin s ctx hs).bind ?_
  intro outcome ctx' hgrows _
  cases outcome with
  | matched _ _ => exact .pure trivial
  | noMatch => exact .pure (hs.grows hgrows)

theorem either (hp : KeepsStep budget p q) (hp' : KeepsStep budget p' q') :
    KeepsStep budget (p.either p') (q.either q') := by
  intro origin s ctx hs
  refine (hp origin s ctx hs).bind ?_
  intro outcome ctx' hgrows hout
  cases outcome with
  | matched value s' => exact .pure hout
  | noMatch => exact hp' origin s ctx' (hs.grows hgrows)

end Parser.KeepsStep

end PullParse
