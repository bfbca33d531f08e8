import PullParse.Proofs.Faults.Nodes
import PullParse.Proofs.Run.Endings

/-!
# Faults unwind

A fault is raised by one part of a grammar and ends every part that has it
inside, up to the grammar itself. Nothing goes on in between: no alternative is
tried, no round is made, and neither the producer nor a callback is called. A
watch over all the parts sees this in every run that ends, and an alarm at all of
them is silent in every run that no fault ends, even if it goes on for ever.
-/

namespace PullParse

/-! ## Watches -/

namespace Ending.OfPart

variable {label : Grammar → Value} {g : Grammar} {position : Int} {start : List Event}
variable {e e' : Ending Context Outcome}

theorem unmarked (h : OfPart label g position start e e') :
    e'.mapFinal Context.unmarked = e.mapFinal Context.unmarked := by
  cases h with
  | done _ hctx => exact congrArg (Ending.done _) hctx.unmarked_eq
  | raised _ hctx => exact congrArg (Ending.raised _) hctx.unmarked_eq
  | unfinished => rfl

/-- With an outcome at the end no part has been broken off. -/
theorem log_done {outcome : Outcome} {ctx' : Context}
    (h : OfPart label g position start e (.done outcome ctx')) :
    ∃ log, ctx'.session.journal.toList = start ++ log ∧ Settled label log := by
  cases h with
  | done hg hctx =>
      obtain ⟨log, hjournal, inner, hinner, rfl⟩ := hctx.logged
      exact ⟨_, hjournal, Settled.nil.part g position outcome hinner hg⟩

/-- With a fault at the end the part is broken off, after the parts in it. -/
theorem log_raised {fault : Fault} {ctx' : Context}
    (h : OfPart label g position start e (.raised fault ctx')) :
    ∃ before log, ctx'.session.journal.toList = start ++ log ∧ Unwound (label g) fault before log ∧
      BrokenOff label fault log := by
  cases h with
  | raised hg hctx =>
      obtain ⟨log, hjournal, inner, hinner, rfl⟩ := hctx.logged
      obtain ⟨before, hbefore⟩ := hinner.unwound (label g) position
      exact ⟨before, _, hjournal, hbefore, .inside g position .nil hinner hg⟩

end Ending.OfPart

/-- The whole of a watched run is a part. -/
theorem Grammar.observed_ofPart {rules : Rules} (hrules : ∀ name args, (rules name args).Untraced)
    {g : Grammar} (hg : g.Untraced) (label : Grammar → Value) (budget : Nat) (ctx : Context)
    (s : State) :
    Ending.OfPart label g s.position ctx.session.journal.toList
      ((g.parser rules s).run budget ctx)
      ((g.observed (.watching label) rules s).run budget ctx) := by
  obtain ⟨q, hrun, hq⟩ :=
    Grammar.observed_hooked (Hook.watching_respects label budget) hrules hg
  have hself : ctx.Watched (fun log => log = []) ctx.session.journal.toList ctx :=
    ⟨rfl, [], (List.append_nil _).symm, rfl⟩
  rw [Hook.watching, hrun]
  exact Parser.Watched.ofPart hq s hself

/-! ## Alarms -/

/-- Gives the alarm in place of a fault. -/
def Parser.alarmed (alarm : Ending Context Outcome) (p : Parser) : Parser := fun s =>
  ⟨fun budget ctx =>
    match (p s).run budget ctx with
    | .raised _ _ => alarm
    | e => e⟩

/-- Runs that are the same as long as no fault is raised. -/
def Correspondence.calm : Correspondence :=
  .ofContexts Eq (fun _ _ _ => True) True (fun h => by rw [h]) fun _ _ => trivial

namespace Parser.Calm

variable {α : Type} {budget : Nat}

theorem self {same : α → α → Prop} (hsame : ∀ a, same a a) (x : Run Context α) :
    Run.Corresponds .calm budget same x x := by
  rintro ctx _ rfl
  cases x.run budget ctx with
  | done a ctx' => exact .done rfl (hsame a)
  | raised fault ctx' => exact .raised trivial
  | unfinished => exact .unfinished

theorem alarmed (alarm : Ending Context Outcome) {p q : Parser}
    (h : Parser.Corresponds .calm budget p q) :
    Parser.Corresponds .calm budget p (q.alarmed alarm) := by
  rintro s _ rfl ctx _ rfl
  have hends := h s s rfl ctx ctx rfl
  simp only [Parser.alarmed]
  generalize (p s).run budget ctx = e, (q s).run budget ctx = e' at hends ⊢
  cases hends with
  | done hctx hsame => exact .done hctx hsame
  | raised _ => exact .excused trivial
  | excused _ => exact .excused trivial
  | unfinished => exact .unfinished

end Parser.Calm

/-- A grammar in which no parse runs inside. -/
def Grammar.Undivided (g : Grammar) : Prop :=
  g.All fun part => ∀ inner producer options overrides,
    part ≠ .nested inner producer options overrides

theorem Hook.alarmed_respects (alarm : Ending Context Outcome) (budget : Nat) :
    Hook.Respects (fun _ p => p.alarmed alarm) id (fun _ : Unit => .calm) budget
      (fun part => (∀ id inner, part ≠ .traced id inner) ∧
        ∀ inner producer options overrides,
          part ≠ .nested inner producer options overrides) where
  leaf g rule _ _ := by
    rintro s _ rfl
    exact Parser.Calm.self (fun outcome => by cases outcome <;> constructor; rfl) _
  notes notes _ := Parser.Calm.self (fun _ => trivial) _
  trace id g _ _ h := absurd rfl (h.1 id g)
  parse g producer options overrides _ _ h := absurd rfl (h.2 g producer options overrides)
  node _ _ _ h i := Parser.Calm.alarmed alarm (h i)

/-- With an enclosure that does nothing there is the hook alone. -/
theorem Hook.enclosing_id (hook : Hook) : Hook.enclosing id hook = hook := by
  funext g p
  cases g <;> rfl

/-- Alarms are silent in a run that no fault ends. -/
theorem Grammar.observed_alarmed {rules : Rules}
    (hrules : ∀ name args, (rules name args).Untraced ∧ (rules name args).Undivided) {g : Grammar}
    (hg : g.Untraced ∧ g.Undivided) (alarm : Ending Context Outcome) {budget : Nat} {ctx : Context}
    {s : State}
    (h : ∀ fault ctx', (g.parser rules s).run budget ctx ≠ .raised fault ctx') :
    (g.observed (fun _ p => p.alarmed alarm) rules s).run budget ctx =
      (g.parser rules s).run budget ctx := by
  obtain ⟨q, hrun, hq⟩ := Grammar.observed_hooked (Hook.alarmed_respects alarm budget)
    (fun name args => (hrules name args).1.and (hrules name args).2) (hg.1.and hg.2)
  have hends := Parser.Calm.alarmed alarm (hq ()) s s rfl ctx ctx rfl
  rw [Hook.enclosing_id] at hrun
  rw [hrun]
  generalize (g.parser rules s).run budget ctx = e, (q.alarmed alarm s).run budget ctx = e'
    at h hends ⊢
  cases hends with
  | done hctx hsame =>
      subst hctx
      cases hsame with
      | matched value hstate => rw [hstate]
      | noMatch => rfl
  | raised _ => exact absurd rfl (h _ _)
  | excused _ => exact absurd rfl (h _ _)
  | unfinished => rfl

/-- **Faults unwind.** Watch a run of a grammar. But for the marks of the watch, the run is as it
was. If it ends with an outcome, then no part of the grammar has been broken off, and none that
fails has been entered. If a fault ends it, then after what was there before the fault, the log
tells of nothing but the end of every part that was under way, each by that very fault: no part is
entered, and neither a callback nor the producer is called any more. If a part that fails has been
entered, then the fault is its own and carries the position at which it was entered. If no fault
ends the run, whether it ends or not, then alarms that would go off in place of any fault change
nothing, as long as no parse of its own runs inside. -/
theorem faults_unwind (rules : Rules) (hrules : ∀ name args, (rules name args).Untraced)
    (g : Grammar) (hg : g.Untraced) (label : Grammar → Value) (budget : Nat) (ctx : Context)
    (s : State) :
    ((g.observed (.watching label) rules s).run budget ctx).mapFinal Context.unmarked =
        ((g.parser rules s).run budget ctx).mapFinal Context.unmarked ∧
      (∀ outcome ctx', (g.observed (.watching label) rules s).run budget ctx = .done outcome ctx' →
        ∃ log, ctx'.session.journal.toList = ctx.session.journal.toList ++ log ∧
          Event.Quiet log ∧ Event.underWay [] log = [] ∧
          ∀ reason, (∀ h, label h = label (.fail reason) → h = .fail reason) →
            ∀ position, .enter (label (.fail reason)) position ∉ log) ∧
      (∀ fault ctx', (g.observed (.watching label) rules s).run budget ctx = .raised fault ctx' →
        ∃ before log, ctx'.session.journal.toList = ctx.session.journal.toList ++ log ∧
          Unwound (label g) fault before log ∧
          ∀ reason, (∀ h, label h = label (.fail reason) → h = .fail reason) →
            ∀ position, .enter (label (.fail reason)) position ∈ log →
              fault = .parse reason (.int position)) ∧
      ((∀ name args, (rules name args).Undivided) → g.Undivided →
        (∀ fault ctx', (g.parser rules s).run budget ctx ≠ .raised fault ctx') → ∀ alarm,
          (g.observed (fun _ p => p.alarmed alarm) rules s).run budget ctx =
            (g.parser rules s).run budget ctx) := by
  have hpart := Grammar.observed_ofPart hrules hg label budget ctx s
  refine ⟨hpart.unmarked, ?_, ?_, ?_⟩
  · intro outcome ctx' hdone
    rw [hdone] at hpart
    obtain ⟨log, hjournal, hsettled⟩ := hpart.log_done
    refine ⟨log, hjournal, hsettled.quiet, hsettled.underWay_eq [], ?_⟩
    intro reason hlabel position hmem
    obtain ⟨part, hid, hfail⟩ := hsettled.entered hmem
    exact hfail reason (hlabel part hid)
  · intro fault ctx' hraised
    rw [hraised] at hpart
    obtain ⟨before, log, hjournal, hunwound, hbroken⟩ := hpart.log_raised
    refine ⟨before, log, hjournal, hunwound, ?_⟩
    intro reason hlabel position hmem
    obtain ⟨part, hid, hfail⟩ := hbroken.entered hmem
    exact hfail reason (hlabel part hid)
  · intro hundivided hg' hends alarm
    exact Grammar.observed_alarmed (fun name args => ⟨hrules name args, hundivided name args⟩)
      ⟨hg, hg'⟩ alarm hends

/-- Items behind each other, where the second one is none. -/
def spoiltItems : List Token := [⟨.str "a", .null⟩, ⟨.str ",", .null⟩, ⟨.str "b", .null⟩]

/-- Items with separators between them, which insist on an item behind a separator, inside
everything that turns a mismatch into a match or back. -/
def insistingItems : Grammar :=
  .notFollowedBy (.opt .null (.lookahead (.many
    (.sepBy (.either (.is (.str "a")) (.fail (.str "item expected"))) (.is (.str ","))))))

/-- The reason of a part that fails, and null for all other parts. -/
def failureLabel : Grammar → Value
  | .fail reason => .list [reason]
  | _ => .null

/-- The missing item is reported at its position, from deep inside. -/
theorem faults_unwind_insisting :
    (∀ (name : String) (args : List Value),
        ((fun _ _ => .eof : Rules) name args).Untraced) ∧
      insistingItems.Untraced ∧
      ∃ ctx' before log,
        (insistingItems.observed (.watching failureLabel) (fun _ _ => .eof) ⟨0, .null⟩).run 4
            (.opened (.ofTokens spoiltItems) .fresh) =
          .raised (.parse (.str "item expected") (.int 2)) ctx' ∧
        ctx'.session.journal.toList = log ∧
        Unwound .null (.parse (.str "item expected") (.int 2)) before log := by
  have hrules : ∀ (name : String) (args : List Value),
      ((fun _ _ => .eof : Rules) name args).Untraced := fun _ _ => nofun
  have hg : insistingItems.Untraced := by
    refine ⟨nofun, nofun, ⟨nofun, nofun, nofun, ⟨nofun, ?_, nofun⟩, nofun⟩, nofun⟩
    exact ⟨nofun, nofun, nofun⟩
  have hunwind := faults_unwind (fun _ _ => .eof) hrules insistingItems hg failureLabel 4
    (.opened (.ofTokens spoiltItems) .fresh) ⟨0, .null⟩
  have hplain : ((insistingItems.parser (fun _ _ => .eof) ⟨0, .null⟩).run 4
      (.opened (.ofTokens spoiltItems) .fresh)).result? =
        some (.error (.parse (.str "item expected") (.int 2))) := by cbv
  have hresult : ((insistingItems.observed (.watching failureLabel) (fun _ _ => .eof)
      ⟨0, .null⟩).run 4 (.opened (.ofTokens spoiltItems) .fresh)).result? =
        some (.error (.parse (.str "item expected") (.int 2))) := by
    rw [← hplain, ← Ending.result?_mapFinal Context.unmarked, hunwind.1,
      Ending.result?_mapFinal]
  obtain ⟨ctx', hraised⟩ := Ending.exists_raised_of_result? hresult
  obtain ⟨before, log, hjournal, hunwound, -⟩ := hunwind.2.2.1 _ ctx' hraised
  exact ⟨hrules, hg, ctx', before, log, hraised, hjournal, hunwound⟩

end PullParse
