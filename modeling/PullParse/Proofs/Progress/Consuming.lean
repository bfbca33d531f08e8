import PullParse.Proofs.Position.Range

/-!
# Consuming grammars

A syntactic criterion for progress: a grammar is consuming if a part of it that
has to run consumes. Whatever such a grammar matches, it has moved on. The end
token is what makes this more than counting: it is matched without moving, so a
test of tokens is consuming only if it does not pass the class of the end.
-/

namespace PullParse

namespace Grammar

/-- A part that has to run consumes a token. What breaks the run off never matches. -/
def Consuming : Grammar → Prop
  | .satisfy test => (test .null).result ≠ .ok true
  | .raise _ | .fail _ => True
  | .noting _ g | .traced _ g => g.Consuming
  | .bind g f => g.Consuming ∨ ∀ value, (f value).Consuming
  | .andThen g h => g.Consuming ∨ h.Consuming
  | .either g h => g.Consuming ∧ h.Consuming
  | .many1 g | .skipMany1 g | .sepBy1 g _ => g.Consuming
  | .manyUntil _ terminator => terminator.Consuming
  | .count n g => 1 ≤ n ∧ g.Consuming
  | _ => False

theorem consuming_anyToken : anyToken.Consuming := by
  intro h
  cases h

/-- Nothing but null equals null, so a test for any other class does not pass the end. -/
theorem consuming_is {cls : Value} (h : cls ≠ .null) : (is cls).Consuming := by
  have hunequal : Value.null.equal cls = false := by
    cases cls <;> simp [Value.equal] at h ⊢
  intro hpass
  have hequal : Value.null.equal cls = true := Except.ok.inj hpass
  rw [hunequal] at hequal
  cases hequal

theorem Consuming.ignore {g : Grammar} (h : g.Consuming) : g.ignore.Consuming := .inl h

theorem Consuming.fmap {g : Grammar} (h : g.Consuming) (f : Value → Action Value) :
    (g.fmap f).Consuming := .inl h

theorem Consuming.andThen_foldl {g : Grammar} (hg : g.Consuming) (rest : List Grammar) :
    (rest.foldl andThen g).Consuming := by
  induction rest generalizing g with
  | nil => exact hg
  | cons h rest ih => exact ih (g := g.andThen h) (.inl hg)

/-- A sequence is consuming if one of its parts is. -/
theorem consuming_sequence {g h k : Grammar} {rest : List Grammar} (hmem : k ∈ g :: h :: rest)
    (hk : k.Consuming) : (sequence g h rest).Consuming := by
  have hrest : ∀ first : Grammar, k ∈ rest → (rest.foldl andThen first).Consuming := by
    induction rest with
    | nil => exact fun _ hmem => absurd hmem List.not_mem_nil
    | cons l rest ih =>
        intro first hmem
        rcases List.mem_cons.mp hmem with rfl | hmem
        · exact Consuming.andThen_foldl (g := first.andThen k) (.inr hk) rest
        · exact ih (List.mem_cons_of_mem _ (List.mem_cons_of_mem _ hmem)) (first.andThen l) hmem
  rcases List.mem_cons.mp hmem with rfl | hmem
  · exact Consuming.andThen_foldl (g := k.andThen h) (.inl hk) rest
  rcases List.mem_cons.mp hmem with rfl | hmem
  · exact Consuming.andThen_foldl (g := g.andThen k) (.inr hk) rest
  · exact hrest (g.andThen h) hmem

theorem consuming_between {opening closing g : Grammar}
    (h : opening.Consuming ∨ closing.Consuming ∨ g.Consuming) :
    (between opening closing g).Consuming := by
  rcases h with h | h | h
  · exact .inl h
  · exact .inr fun _ => .inr fun _ => .inl h
  · exact .inr fun _ => .inl h

end Grammar

theorem Token.cls_of_isEof {token : Token} (h : token.isEof = true) : token.cls = .null := by
  unfold isEof at h
  split at h
  · assumption
  · cases h

theorem Run.perform_done {α : Type} {x : Action α} {budget : Nat} {ctx ctx' : Context} {a : α}
    (h : (Run.perform x).run budget ctx = .done a ctx') :
    x.result = .ok a ∧ ctx'.cache = ctx.cache := by
  simp only [Run.perform] at h
  cases hx : x.result with
  | ok b =>
      rw [hx] at h
      cases h
      exact ⟨rfl, rfl⟩
  | error fault =>
      rw [hx] at h
      cases h

namespace Parser

/-- A match that has to be made first is the beginning of a chain. -/
theorem mandatory_eq_bind (p : Parser) (f : Value → Parser) :
    (fun s => do
      match ← p s with
      | .noMatch => return .noMatch
      | .matched value s' => f value s') = p.bind f := by
  funext s
  rw [Parser.bind]
  congr 1
  funext outcome
  cases outcome with
  | matched value s' => rfl
  | noMatch => rfl

/-- Every match from a state in range is further on. -/
def Advances (budget : Nat) (p : Parser) : Prop :=
  ∀ (s : State) (ctx : Context) (value : Value) (s' : State) (ctx' : Context),
    s.InRange ctx.cache → (p s).run budget ctx = .done (.matched value s') ctx' →
      s.position < s'.position

namespace Advances

variable {budget : Nat} {p q : Parser}

theorem current_done {s : State} {ctx ctx' : Context} {token : Token} (hs : s.InRange ctx.cache)
    (h : (Parser.current s).run budget ctx = .done token ctx') :
    ctx.cache.GrowsTo ctx'.cache ∧ ctx'.cache.tokens[s.position.toNat]? = some token := by
  have hgrown := (KeepsStep.current budget hs).grown
  rw [h] at hgrown
  cases hgrown with
  | done hgrows hget => exact ⟨hgrows, hget⟩

theorem satisfy {test : Value → Action Bool} (htest : (test .null).result ≠ .ok true) :
    Advances budget (Parser.satisfy test) := by
  intro s ctx value s' ctx' hs hrun
  obtain ⟨token, ctx₁, hcurrent, hrun⟩ := Run.done_bind hrun
  obtain ⟨passed, ctx₂, hperform, hrun⟩ := Run.done_bind hrun
  obtain ⟨hpassed, hcache⟩ := Run.perform_done hperform
  obtain ⟨hgrows, hget⟩ := current_done hs hcurrent
  have hs₂ : s.InRange ctx₂.cache := hcache ▸ hs.grows hgrows
  cases passed with
  | false => cases hrun
  | true =>
      obtain ⟨s₁, ctx₃, hadvance, hrun⟩ := Run.done_bind hrun
      cases hrun
      obtain ⟨token', ctx₄, hcurrent', hadvance⟩ := Run.done_bind hadvance
      cases hadvance
      -- the second read is at the same position, so it finds the token that has passed the test
      obtain ⟨hgrows', hget'⟩ := current_done hs₂ hcurrent'
      rw [← hcache] at hget
      have htoken : token' = token :=
        Option.some.inj (hget'.symm.trans (hgrows'.getElem?_tokens hget))
      cases he : token'.isEof with
      | true =>
          rw [← htoken, Token.cls_of_isEof he] at hpassed
          exact absurd hpassed htest
      | false =>
          simp only [Bool.false_eq_true, if_false]
          omega

/-! ## Chaining and choosing -/

theorem raising (fault : State → Fault) : Advances budget fun s => Run.raise (fault s) := by
  intro s ctx value s' ctx' _ hrun
  cases hrun

theorem noting (notes : List Value) (hp : Advances budget p) :
    Advances budget (Parser.noting notes p) := by
  intro s ctx value s' ctx' hs hrun
  obtain ⟨_, ctx₁, hperform, hrun⟩ := Run.done_bind hrun
  obtain ⟨-, hcache⟩ := Run.perform_done hperform
  rw [← hcache] at hs
  exact hp s ctx₁ value s' ctx' hs hrun

theorem traced (id : Value) (hp : Advances budget p) : Advances budget (p.traced id) := by
  intro s ctx value s' ctx' hs hrun
  obtain ⟨_, ctx₁, hwrite, hrun⟩ := Run.done_bind hrun
  cases hwrite
  obtain ⟨result, ctx₂, hattempt, hrun⟩ := Run.done_bind hrun
  simp only [Run.attempt, if_true] at hattempt
  cases hbody : (p s).run budget
      (ctx.mapSession fun session => session.write (.enter id s.position)) with
  | done outcome ctx₃ =>
      rw [hbody] at hattempt
      cases hattempt
      cases hrun
      exact hp s (ctx.mapSession fun session => session.write (.enter id s.position)) value s' ctx₂
        hs hbody
  | raised fault ctx₃ =>
      rw [hbody] at hattempt
      cases hattempt
      cases hrun
  | unfinished =>
      rw [hbody] at hattempt
      cases hattempt

/-- The first part moves on, and what follows does not go back. -/
theorem bind_left {f : Value → Parser} (hp : Advances budget p) (hstep : KeepsStep budget p p)
    (hf : ∀ value, KeepsStep budget (f value) (f value)) : Advances budget (p.bind f) := by
  intro s ctx value s' ctx' hs hrun
  obtain ⟨outcome, ctx₁, hfirst, hrun⟩ := Run.done_bind hrun
  cases outcome with
  | noMatch => cases hrun
  | matched first s₁ =>
      have hfurther := hp s ctx first s₁ ctx₁ hs hfirst
      obtain ⟨-, hs₁⟩ := hstep.done hs hfirst
      obtain ⟨-, hs'⟩ := (hf first).done hs₁.inRange hrun
      have hback := hs'.passes.1
      omega

/-- What follows moves on from where the first part has matched. -/
theorem bind_right {f : Value → Parser} (hstep : KeepsStep budget p p)
    (hf : ∀ value, Advances budget (f value)) : Advances budget (p.bind f) := by
  intro s ctx value s' ctx' hs hrun
  obtain ⟨outcome, ctx₁, hfirst, hrun⟩ := Run.done_bind hrun
  cases outcome with
  | noMatch => cases hrun
  | matched first s₁ =>
      obtain ⟨-, hs₁⟩ := hstep.done hs hfirst
      have hback := hs₁.passes.1
      have hfurther := hf first s₁ ctx₁ value s' ctx' hs₁.inRange hrun
      omega

theorem either (hp : Advances budget p) (hstep : KeepsStep budget p p) (hq : Advances budget q) :
    Advances budget (p.either q) := by
  intro s ctx value s' ctx' hs hrun
  obtain ⟨outcome, ctx₁, hfirst, hrun⟩ := Run.done_bind hrun
  cases outcome with
  | noMatch =>
      obtain ⟨hgrows, -⟩ := hstep.done hs hfirst
      exact hq s ctx₁ value s' ctx' (hs.grows hgrows) hrun
  | matched first s₁ =>
      cases hrun
      exact hp s ctx value s' ctx' hs hfirst

/-! ## Repetitions -/

/-- A first match that has to be made moves on. -/
theorem mandatory {f : Value → Parser} (hp : Advances budget p) (hstep : KeepsStep budget p p)
    (hf : ∀ value, KeepsStep budget (f value) (f value)) :
    Advances budget
      (fun s => do
        match ← p s with
        | .noMatch => return .noMatch
        | .matched value s' => f value s') := by
  rw [mandatory_eq_bind]
  exact bind_left hp hstep hf

theorem many1 (hp : Advances budget p) (hstep : KeepsStep budget p p) :
    Advances budget p.many1 :=
  mandatory hp hstep fun value => .repeating "many1" (fun values => .list (value :: values)) hstep

theorem skipMany1 (hp : Advances budget p) (hstep : KeepsStep budget p p) :
    Advances budget p.skipMany1 :=
  mandatory hp hstep fun _ => .repeating "skip_many1" (fun _ => .null) hstep

theorem sepBy1 (hp : Advances budget p) (hstep : KeepsStep budget p p)
    (hstep' : KeepsStep budget q q) : Advances budget (p.sepBy1 q) := by
  refine mandatory hp hstep ?_
  intro value origin s ctx hs
  exact KeepsStep.guarded fun guard =>
    KeepsStep.roundsSeparated guard hstep hstep' origin budget s [value] ctx hs

/-- The rounds before the terminator do not go back, and the terminator moves on. -/
theorem roundsUntil (guard : Bool) (hstep : KeepsStep budget p p) (hq : Advances budget q)
    (hstep' : KeepsStep budget q q) (left : Nat) :
    ∀ (s : State) (collected : List Value) (ctx : Context) (value : Value) (s' : State)
      (ctx' : Context), s.InRange ctx.cache →
      (Parser.roundsUntil guard p q left s collected).run budget ctx =
        .done (.matched value s') ctx' → s.position < s'.position := by
  induction left with
  | zero =>
      intro s collected ctx value s' ctx' _ hrun
      cases hrun
  | succ left ih =>
      intro s collected ctx value s' ctx' hs hrun
      obtain ⟨last, ctx₁, hlast, hrun⟩ := Run.done_bind hrun
      obtain ⟨hgrows, -⟩ := hstep'.done hs hlast
      cases last with
      | matched found s₁ =>
          cases hrun
          exact hq s ctx found s' ctx' hs hlast
      | noMatch =>
          obtain ⟨outcome, ctx₂, hround, hrun⟩ := Run.done_bind hrun
          obtain ⟨-, hs₂⟩ := hstep.done (hs.grows hgrows) hround
          cases outcome with
          | noMatch => cases hrun
          | matched found s₂ =>
              by_cases hstall : stalls guard s s₂ = true
              · simp only [hstall, if_true] at hrun
                cases hrun
              · simp only [hstall] at hrun
                have hfurther := ih s₂ _ ctx₂ value s' ctx' hs₂.inRange hrun
                have hback := hs₂.passes.1
                omega

theorem manyUntil (hstep : KeepsStep budget p p) (hq : Advances budget q)
    (hstep' : KeepsStep budget q q) : Advances budget (p.manyUntil q) := by
  intro s ctx value s' ctx' hs hrun
  exact roundsUntil ctx.session.settings.guard.truth hstep hq hstep' budget s [] ctx value s' ctx'
    hs hrun

/-- The first of at least one round moves on. -/
theorem count {n : Int} (hn : 1 ≤ n) (hp : Advances budget p) (hstep : KeepsStep budget p p) :
    Advances budget (Parser.count n p) := by
  obtain ⟨left, hleft⟩ : ∃ left, n.toNat = left + 1 := ⟨n.toNat - 1, by omega⟩
  intro s ctx value s' ctx' hs hrun
  rw [Parser.count, hleft] at hrun
  obtain ⟨outcome, ctx₁, hround, hrun⟩ := Run.done_bind hrun
  cases outcome with
  | noMatch => cases hrun
  | matched first s₁ =>
      have hfurther := hp s ctx first s₁ ctx₁ hs hround
      obtain ⟨-, hs₁⟩ := hstep.done hs hround
      have hgrown := (KeepsStep.countRounds hstep s₁ left s₁ [first] ctx₁ hs₁.inRange.onTrack).grown
      rw [hrun] at hgrown
      cases hgrown with
      | done _ hs' =>
          have hback := hs'.passes.1
          omega

end Advances

end Parser

/-- **Consuming grammars consume.** Every match of one, from a state in range, is further on. -/
theorem Grammar.Consuming.advances {budget : Nat} {rule : String → List Value → Parser}
    (hrule : ∀ name args, Parser.KeepsStep budget (rule name args) (rule name args))
    {g : Grammar} (h : g.Consuming) : Parser.Advances budget (g.toParser rule) := by
  have hstep := Grammar.keepsStep hrule
  induction g with
  | satisfy test => exact .satisfy h
  | raise fault => exact .raising fun _ => fault
  | fail reason => exact .raising fun s => .parse reason (.int s.position)
  | noting notes g ih => exact .noting notes (ih h)
  | traced id g ih => exact .traced id (ih h)
  | bind g f ihg ihf =>
      rcases h with h | h
      · exact .bind_left (ihg h) (hstep g) fun value => hstep (f value)
      · exact .bind_right (hstep g) fun value => ihf value (h value)
  | andThen g k ihg ihk =>
      rcases h with h | h
      · exact .bind_left (ihg h) (hstep g) fun _ => hstep k
      · exact .bind_right (hstep g) fun _ => ihk h
  | either g k ihg ihk => exact .either (ihg h.1) (hstep g) (ihk h.2)
  | many1 g ih => exact .many1 (ih h) (hstep g)
  | skipMany1 g ih => exact .skipMany1 (ih h) (hstep g)
  | sepBy1 g sep ih => exact .sepBy1 (ih h) (hstep g) (hstep sep)
  | manyUntil g terminator _ ih => exact .manyUntil (hstep g) (ih h) (hstep terminator)
  | count n g ih => exact .count h.1 (ih h.2) (hstep g)
  | _ => exact h.elim

end PullParse
