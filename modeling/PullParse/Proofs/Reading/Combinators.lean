import PullParse.Proofs.Reading.Runs

/-!
# Every combinator is read as it runs

A parser is read as a reader if from every state in range its run and the reading
proceed in step, with the same outcome. Each combinator turns parsers that are
read as readers into one that is, the loops by induction on the rounds that are
left.
-/

namespace PullParse

variable {marks : Marks} {src : Producer} {t : TokenStream} {settings : Settings} {budget : Nat}

/-- A match leaves a state in range behind. -/
def Outcome.InRange : Outcome → Cache → Prop
  | .matched _ s, c => s.InRange c
  | .noMatch, _ => True

/-- The same outcome on both sides, in range. -/
def Outcome.Same (a b : Outcome) (ctx : Context) : Prop := a = b ∧ a.InRange ctx.cache

/-- Runs of the parser proceed in step with readings, from every state in range. -/
def Parser.ReadsAs (marks : Marks) (src : Producer) (t : TokenStream) (settings : Settings)
    (budget : Nat) (p : Parser) (r : Reader) : Prop :=
  ∀ (s : State) (ctx : Context), ctx.Stands src t settings → s.InRange ctx.cache →
    Run.Reads marks src t budget ctx Outcome.Same (p s) (r s)

namespace Parser.ReadsAs

open Run (Reads)

variable {p q : Parser} {r k : Reader}

/-! ## Single tokens -/

/-- A read at a state in range finds the token of the stream. From then on it is cached, and
reading it again changes nothing. -/
theorem current (budget : Nat) (hmarks : marks ≠ .each) (hsrc : src.Delivers t) {s : State}
    {ctx : Context} (hctx : ctx.Stands src t settings) (hs : s.InRange ctx.cache) :
    ∃ ctx', (Parser.current s).run budget ctx = .done (t s.position.toNat) ctx' ∧
      ctx.Looked marks src t [s.position] ctx' ∧
      ctx'.cache.tokens[s.position.toNat]? = some (t s.position.toNat) ∧
      ∀ session, (Parser.current s).run budget ⟨ctx'.cache, session⟩ =
        .done (t s.position.toNat) ⟨ctx'.cache, session⟩ := by
  obtain ⟨cache, session⟩ := ctx
  obtain ⟨c', hread, hholds, hlen⟩ := hctx.holds.tokenAt_of_inRange hsrc hs
  have hagain := Cache.tokenAt_again hs hread
  have hnonneg : ∀ k ∈ [s.position], 0 ≤ k := by
    intro k hk
    rw [List.mem_singleton.mp hk]
    exact hs.1
  refine ⟨(Context.tokenAt s.position ⟨cache, session⟩).2, ?_, ⟨?_, ?_, ?_, ?_, hnonneg⟩, ?_, ?_⟩
  all_goals
    simp only [Parser.current, Run.tokenAt, Context.tokenAt, hread, hagain, Ending.ofExcept]
  · exact hholds
  · exact hlen
  · split <;> rfl
  · refine .unmarked hmarks ?_
    split
    · rfl
    · simp [Session.entered_write]
  · exact Cache.getElem?_of_tokenAt hs hread
  · simp

/-- Performing an action leaves the cache alone. -/
theorem perform {α : Type} {ctx : Context} (hctx : ctx.Stands src t settings) (x : Action α) :
    Reads marks src t budget ctx (fun a b ctx' => a = b ∧ ctx'.cache = ctx.cache)
      (Run.perform x) (Reading.ofExcept x.result) := by
  have hl : ctx.Looked marks src t [] (ctx.mapSession fun s => s.writeNotes x.notes) := by
    refine ⟨hctx.holds, rfl, ?_, .unread (Session.entered_writeNotes _ _),
      fun _ hk => absurd hk List.not_mem_nil⟩
    show (x.notes.foldl (fun s v => s.write (.note v)) ctx.session).settings = _
    generalize ctx.session = session
    induction x.notes generalizing session with
    | nil => rfl
    | cons v vs ih => exact ih _
  unfold Reads
  simp only [Run.perform, Reading.ofExcept]
  cases x.result with
  | ok a => exact .done hl ⟨rfl, rfl⟩
  | error fault => exact .raised hl

theorem satisfy (hmarks : marks ≠ .each) (hsrc : src.Delivers t) (test : Value → Action Bool)
    (rule : String → List Value → Reader) :
    ReadsAs marks src t settings budget (Parser.satisfy test)
      ((Grammar.satisfy test).read t settings budget rule) := by
  intro s ctx hctx hs
  obtain ⟨ctx₁, hrun, hlook, hget, hagain⟩ := current budget hmarks hsrc hctx hs
  have hctx₁ := hctx.looked hlook
  have hs₁ : s.InRange ctx₁.cache := hctx.inRange hlook hs
  have hcurrent : Reads marks src t budget ctx
      (fun a b ctx' => a = b ∧ a = t s.position.toNat ∧ ctx₁ = ctx') (Parser.current s)
      (Reading.look t s.position) := by
    unfold Reads
    rw [hrun]
    exact .done hlook ⟨rfl, rfl, rfl⟩
  refine hcurrent.bind ?_
  rintro token _ _ - ⟨rfl, rfl, rfl⟩
  refine (perform hctx₁ (test (t s.position.toNat).cls)).bind ?_
  rintro passed _ ctx₂ hafter ⟨rfl, hcache⟩
  have hctx₂ := hctx₁.looked hafter
  cases passed with
  | false => exact Reads.pure hctx₂ ⟨rfl, trivial⟩
  | true =>
      -- the token was read before the test, so the second read finds it cached
      have hread := hagain ctx₂.session
      rw [← hcache] at hread hget hs₁
      unfold Reads
      simp only [Parser.advance, if_true, Run.run_bind, Run.run_pure, hread, Ending.andThen,
        Reading.result_pure, Reading.examined_pure]
      refine .done hctx₂.looked_nil ⟨rfl, ?_⟩
      cases he : (t s.position.toNat).isEof with
      | true => exact hs₁
      | false => exact Cache.inRange_next hs₁ hget he _

/-! ## Parsers in place -/

/-- A match in place, whatever becomes of the user data. -/
theorem inPlace (value : State → Value) (data : State → Value) :
    ReadsAs marks src t settings budget
      (fun s => return .matched (value s) { s with userData := data s })
      (fun s => return .matched (value s) { s with userData := data s }) := by
  intro s ctx hctx hs
  exact Reads.pure hctx ⟨rfl, hs.withUserData _⟩

theorem raising (fault : State → Fault) :
    ReadsAs marks src t settings budget (fun s => Run.raise (fault s))
      (fun s => Reading.raise (fault s)) := by
  intro s ctx hctx _
  exact Reads.raise hctx (fault s)

theorem popUserData (rule : String → List Value → Reader) :
    ReadsAs marks src t settings budget Parser.popUserData
      (Grammar.popUserData.read t settings budget rule) := by
  intro s ctx hctx hs
  have hpop : Reads marks src t budget ctx (fun a b ctx' => a = b ∧ ctx'.cache = ctx.cache)
      (Run.ofExcept ((Stack.ofValue s.userData).bind Stack.pop))
      (Reading.ofExcept ((Stack.ofValue s.userData).bind Stack.pop)) := by
    unfold Reads
    simp only [Run.ofExcept, Reading.ofExcept]
    cases (Stack.ofValue s.userData).bind Stack.pop with
    | ok popped => exact .done hctx.looked_nil ⟨rfl, rfl⟩
    | error fault => exact .raised hctx.looked_nil
  refine hpop.bind ?_
  rintro popped _ ctx' hafter ⟨rfl, hcache⟩
  refine Reads.pure (hctx.looked hafter) ⟨rfl, ?_⟩
  rw [← hcache] at hs
  exact hs.withUserData _

theorem activeSettings :
    ReadsAs marks src t settings budget Parser.activeSettings
      (fun s => return .matched settings.toValue s) := by
  intro s ctx hctx hs
  refine .done hctx.looked_nil ⟨?_, hs⟩
  rw [hctx.settings_eq]

theorem noting (notes : List Value) (hp : ReadsAs marks src t settings budget p r) :
    ReadsAs marks src t settings budget (Parser.noting notes p) r := by
  intro s ctx hctx hs
  refine (perform hctx ⟨notes, .ok ()⟩).bind (g := fun _ => r s) ?_
  rintro _ _ ctx' hafter ⟨-, hcache⟩
  rw [← hcache] at hs
  exact hp s ctx' (hctx.looked hafter) hs

/-! ## Chaining and choosing -/

theorem bind {f : Value → Parser} {g : Value → Reader}
    (hp : ReadsAs marks src t settings budget p r)
    (hf : ∀ value, ReadsAs marks src t settings budget (f value) (g value)) :
    ReadsAs marks src t settings budget (p.bind f) fun s => do
      match ← r s with
      | .matched value s' => g value s'
      | .noMatch => return .noMatch := by
  intro s ctx hctx hs
  refine (hp s ctx hctx hs).bind ?_
  rintro outcome _ ctx' hafter ⟨rfl, hout⟩
  have hctx' := hctx.looked hafter
  cases outcome with
  | matched value s' => exact hf value s' ctx' hctx' hout
  | noMatch => exact Reads.pure hctx' ⟨rfl, trivial⟩

theorem andThen (hp : ReadsAs marks src t settings budget p r)
    (hq : ReadsAs marks src t settings budget q k) :
    ReadsAs marks src t settings budget (p.andThen q) fun s => do
      match ← r s with
      | .matched _ s' => k s'
      | .noMatch => return .noMatch :=
  bind hp fun _ => hq

theorem lookahead (hp : ReadsAs marks src t settings budget p r) :
    ReadsAs marks src t settings budget p.lookahead fun s => do
      match ← r s with
      | .matched value _ => return .matched value s
      | .noMatch => return .noMatch := by
  intro s ctx hctx hs
  refine (hp s ctx hctx hs).bind ?_
  rintro outcome _ ctx' hafter ⟨rfl, -⟩
  have hctx' := hctx.looked hafter
  cases outcome with
  | matched value _ => exact Reads.pure hctx' ⟨rfl, hctx.inRange hafter hs⟩
  | noMatch => exact Reads.pure hctx' ⟨rfl, trivial⟩

theorem notFollowedBy (hp : ReadsAs marks src t settings budget p r) :
    ReadsAs marks src t settings budget p.notFollowedBy fun s => do
      match ← r s with
      | .matched _ _ => return .noMatch
      | .noMatch => return .matched .null s := by
  intro s ctx hctx hs
  refine (hp s ctx hctx hs).bind ?_
  rintro outcome _ ctx' hafter ⟨rfl, -⟩
  have hctx' := hctx.looked hafter
  cases outcome with
  | matched _ _ => exact Reads.pure hctx' ⟨rfl, trivial⟩
  | noMatch => exact Reads.pure hctx' ⟨rfl, hctx.inRange hafter hs⟩

theorem either (hp : ReadsAs marks src t settings budget p r)
    (hq : ReadsAs marks src t settings budget q k) :
    ReadsAs marks src t settings budget (p.either q) (fun s => do
      match ← r s with
      | .matched value s' => return .matched value s'
      | .noMatch => k s) := by
  intro s ctx hctx hs
  refine (hp s ctx hctx hs).bind ?_
  rintro outcome _ ctx' hafter ⟨rfl, hout⟩
  have hctx' := hctx.looked hafter
  cases outcome with
  | matched value s' => exact Reads.pure hctx' ⟨rfl, hout⟩
  | noMatch => exact hq s ctx' hctx' (hctx.inRange hafter hs)

end Parser.ReadsAs

end PullParse
