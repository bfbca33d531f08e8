import PullParse.Proofs.Correspondence.Leaves
import PullParse.Proofs.Faults.Watch

/-!
# Every node can be watched

The parsers without parts write calls into the journal and no marks, a part is
marked where it is entered and where it ends, and a parse inside the run comes to
the same end whether it is watched or not. So the watch goes unnoticed by runs,
and the journal it leaves is a log of parts.
-/

namespace PullParse

variable {label : Grammar → Value} {start : List Event} {budget : Nat}

/-! ## Parsers without parts -/

/-- A fault that is raised now finds no part broken off. -/
theorem Context.Watched.broken {ctx ctx' : Context} (h : ctx.Watched (Settled label) start ctx')
    (fault : Fault) : ctx.Watched (BrokenOff label fault) start ctx' :=
  h.mono fun _ => .here

/-- The steps of a run write calls into the journal and no marks. -/
theorem Correspondence.watch_stepwise (label : Grammar → Value) (start : List Event)
    (budget : Nat) : (Correspondence.watch label start).Stepwise budget where
  states_eq := rfl
  broken h := h.broken
  tokenAt position := by
    intro ctx ctx' h
    obtain ⟨hanswer, hread⟩ := h.tokenAt position
    simp only [Run.tokenAt]
    rw [hanswer]
    exact .ofExcept _ hread hread.broken
  notes h notes := h.notes notes
  settings_eq h := h.settings_eq
  setSettings h _ := h.map _ (fun _ => rfl) fun _ => rfl

/-! ## Marked parts -/

/-- The endings of a part and of the marked part, which adds to the journal the log of the part. -/
inductive Ending.OfPart (label : Grammar → Value) (g : Grammar) (position : Int)
    (start : List Event) : Ending Context Outcome → Ending Context Outcome → Prop
  | done {outcome : Outcome} {ctx ctx' : Context} (hg : ∀ reason, g ≠ .fail reason)
      (h : ctx.Watched (fun log => ∃ inner, Settled label inner ∧
        log = Event.ofPart (label g) position inner (outcome.event (label g))) start ctx') :
      OfPart label g position start (.done outcome ctx) (.done outcome ctx')
  | raised {fault : Fault} {ctx ctx' : Context}
      (hg : ∀ reason, g = .fail reason → fault = .parse reason (.int position))
      (h : ctx.Watched (fun log => ∃ inner, BrokenOff label fault inner ∧
        log = Event.ofPart (label g) position inner (.raised (label g) fault)) start ctx') :
      OfPart label g position start (.raised fault ctx) (.raised fault ctx')
  | unfinished : OfPart label g position start .unfinished .unfinished

namespace Parser.Watched

variable {rule : String → List Value → Parser} {g : Grammar} {q : Parser}

/-- A part leaves its log between the marks of its entry and of its end. -/
theorem ofPart (h : ∀ start, Parser.Corresponds (.watch label start) budget (g.toParser rule) q)
    (s : State) {ctx ctx' : Context} {log : List Event → Prop} (hctx : ctx.Watched log start ctx') :
    Ending.OfPart label g s.position ctx'.session.journal.toList
      ((g.toParser rule s).run budget ctx) ((q.traced (label g) s).run budget ctx') := by
  have hends := h _ s s rfl ctx _ (hctx.enter label (label g) s.position)
  simp only [Parser.traced, Run.run_bind, Run.write, Run.modify, Run.attempt, Ending.andThen,
    if_true]
  generalize hrun : (g.toParser rule s).run budget ctx = e, (q s).run budget _ = e' at hends ⊢
  cases hends with
  | done hinner hsame =>
      have hg : ∀ reason, g ≠ .fail reason := by
        rintro reason rfl
        cases hrun
      cases hsame with
      | matched value hstate =>
          subst hstate
          exact .done hg (hinner.leave rfl)
      | noMatch => exact .done hg (hinner.leave rfl)
  | raised hinner =>
      refine .raised ?_ (hinner.leave rfl)
      rintro reason rfl
      cases hrun
      rfl
  | excused hlenient => exact hlenient.elim
  | unfinished => exact .unfinished

/-- A marked part adds a part to the log. -/
theorem traced (h : ∀ start, Parser.Corresponds (.watch label start) budget (g.toParser rule) q)
    (start : List Event) :
    Parser.Corresponds (.watch label start) budget (g.toParser rule) (q.traced (label g)) := by
  rintro s _ rfl ctx ctx' hctx
  have hpart := ofPart h s hctx
  obtain ⟨events, hjournal, hevents⟩ := hctx.logged
  rw [hjournal] at hpart
  generalize (g.toParser rule s).run budget ctx = e,
    (q.traced (label g) s).run budget ctx' = e' at hpart ⊢
  cases hpart with
  | @done outcome _ _ hg hctx' =>
      refine .done (hctx'.append ?_) (by cases outcome <;> constructor; rfl)
      rintro _ ⟨inner, hinner, rfl⟩
      exact .part g s.position outcome hevents hinner hg
  | raised hg hctx' =>
      refine .raised (hctx'.append ?_)
      rintro _ ⟨inner, hinner, rfl⟩
      exact .inside g s.position hevents hinner hg
  | unfinished => exact .unfinished

end Parser.Watched

/-! ## Parses inside -/

/-- The correspondence in which nothing is said of what has been added to the journal. -/
def Correspondence.apart (start : List Event) : Correspondence :=
  .ofContexts (Context.Watched (fun _ => True) start)
    (fun _ => Context.Watched (fun _ => True) start) False
    (fun h => by rw [h.settings_eq]) fun h _ => h

namespace Parser.Watched

variable {p q : Parser}

/-- What a parse makes of the ending of its parser takes no notice of marks. -/
theorem concluded (caller settings : Settings) {e e' : Ending Context Outcome}
    (h : e.Corresponds (.watch label start) (Outcome.Both Eq) e') :
    (Parser.concluded caller settings e).Corresponds (.apart start) Eq
      (Parser.concluded caller settings e') := by
  have hclosed : ∀ {log : List Event → Prop} {ctx ctx' : Context}, ctx.Watched log start ctx' →
      ∀ record success, (ctx.closed caller record success).Watched (fun _ => True) start
        (ctx'.closed caller record success) := by
    intro log ctx ctx' hctx record success
    exact (hctx.mono fun _ _ => trivial).map (Context.closed caller record success) (fun _ => rfl)
      fun _ => rfl
  cases h with
  | done hctx hsame =>
      cases hsame with
      | matched value hstate =>
          subst hstate
          simp only [Parser.concluded]
          rw [hctx.cache_eq]
          exact .done (hclosed hctx _ _) rfl
      | noMatch =>
          simp only [Parser.concluded]
          rw [hctx.cache_eq]
          exact .ofExcept _ (hclosed hctx _ _) fun _ => hclosed hctx _ _
  | @raised fault ctx ctx' hctx =>
      simp only [Parser.concluded]
      by_cases hhard : fault.isHard = true
      · rw [if_pos hhard, if_pos hhard]
        exact .ofExcept _ (hclosed hctx _ _) fun _ => hclosed hctx _ _
      · rw [if_neg hhard, if_neg hhard]
        exact .raised ((hctx.mono fun _ _ => trivial).map (Context.restored caller) (fun _ => rfl)
          fun _ => rfl)
  | excused hlenient => exact hlenient.elim
  | unfinished => exact .unfinished

/-- A parse takes no notice of the watch, and ends as the parse that is not watched. -/
theorem parse (h : ∀ start, Parser.Corresponds (.watch label start) budget p q)
    (options : Options) (overrides : List (String × Value)) (producer : Producer)
    {ctx ctx' : Context} {log : List Event → Prop} (hctx : ctx.Watched log start ctx') :
    ((p.parse options overrides).run budget (.opened producer ctx.session)).Corresponds
      (.apart ctx'.session.journal.toList) Eq
      ((q.parse options overrides).run budget (.opened producer ctx'.session)) := by
  -- the parse inside starts with an empty log of its own
  have hopened : (Context.opened producer ctx.session).Watched (Settled label)
      ctx'.session.journal.toList (.opened producer ctx'.session) :=
    hctx.restart.map (fun ctx => .opened producer ctx.session) (fun _ => rfl) fun _ => rfl
  have hsettings := hctx.settings_eq
  cases hresolve : options.resolve ctx.session.settings overrides with
  | error fault =>
      have hresolve' : options.resolve ctx'.session.settings overrides = .error fault := by
        rw [hsettings, hresolve]
      rw [parse_refused (.opened producer ctx.session) hresolve,
        parse_refused (.opened producer ctx'.session) hresolve']
      exact .raised (hopened.mono fun _ _ => trivial)
  | ok settings =>
      have hresolve' : options.resolve ctx'.session.settings overrides = .ok settings := by
        rw [hsettings, hresolve]
      have hactive := hopened.map
        (fun ctx => ctx.mapSession fun s => { s with settings := settings }) (fun _ => rfl)
        fun _ => rfl
      have hread := hactive.tokenAt 0
      cases hfirst : ((Cache.fresh producer).tokenAt 0).1 with
      | error fault =>
          rw [parse_unstarted hresolve hfirst, parse_unstarted hresolve' hfirst, hsettings]
          exact .raised ((hread.2.mono fun _ _ => trivial).map (Context.restored _) (fun _ => rfl)
            fun _ => rfl)
      | ok token =>
          rw [parse_run hresolve hfirst, parse_run hresolve' hfirst, hsettings]
          have hstarted := hread.2.map
            (fun ctx => ctx.mapSession fun s => s.logged (.started settings.userData))
            (fun _ => rfl) fun _ => rfl
          exact concluded _ _ (h _ _ _ rfl _ _ hstarted)

/-- Of a parse inside, the calls are left in the log, whatever its own log is. -/
theorem left {ctx ctx' inner inner' : Context} (hctx : ctx.Watched (Settled label) start ctx')
    (hinner : inner.Watched (fun _ => True) ctx'.session.journal.toList inner') :
    Context.Watched (Settled label) start { ctx with session := inner.session }
      (({ ctx' with session := inner'.session } : Context).mapSession ctx'.session.secluded) := by
  obtain ⟨events, hjournal, hevents⟩ := hctx.logged
  obtain ⟨added, hadded, -⟩ := hinner.logged
  constructor
  · have hsession : inner'.session.unmarked = inner.session.unmarked :=
      congrArg Context.session hinner.unmarked_eq
    show Context.mk ctx'.cache (ctx'.session.secluded inner'.session).unmarked =
      ⟨ctx.cache, inner.session.unmarked⟩
    rw [Session.unmarked_secluded hadded, hsession, hctx.cache_eq]
  · refine ⟨events ++ added.filter Event.isCall, ?_, hevents.calls ?_⟩
    · show (ctx'.session.secluded inner'.session).journal.toList = _
      rw [Session.journal_secluded hadded, hjournal, List.append_assoc]
    · exact fun event hmem => (List.mem_filter.mp hmem).2

theorem nested (h : ∀ start, Parser.Corresponds (.watch label start) budget p q)
    (producer : Producer) (options : Options) (overrides : List (String × Value))
    (start : List Event) :
    Parser.Corresponds (.watch label start) budget (p.nested producer options overrides)
      (q.nested producer options overrides).secluded := by
  rintro s _ rfl ctx ctx' hctx
  have hends := parse h options overrides producer hctx
  simp only [Parser.nested, Parser.secluded, Run.run_bind, Run.get, Run.restoring, Run.within,
    Ending.andThen]
  generalize (p.parse options overrides).run budget _ = e,
    (q.parse options overrides).run budget _ = e' at hends ⊢
  cases hends with
  | done hinner hsame =>
      subst hsame
      exact .done (left hctx hinner) (.matched _ rfl)
  | raised hinner => exact .raised ((left hctx hinner).broken _)
  | excused hlenient => exact hlenient.elim
  | unfinished => exact .unfinished

end Parser.Watched

/-! ## The watch -/

/-- Marks every part of a grammar under its label, and leaves out the marks of parses inside. -/
def Hook.watching (label : Grammar → Value) : Hook :=
  .enclosing Parser.secluded fun g p => p.traced (label g)

/-- A grammar without marks of its own. -/
def Grammar.Untraced (g : Grammar) : Prop := g.All fun part => ∀ id inner, part ≠ .traced id inner

/-- The watch goes unnoticed. -/
theorem Hook.watching_respects (label : Grammar → Value) (budget : Nat) :
    Hook.Respects (fun g p => p.traced (label g)) Parser.secluded (Correspondence.watch label)
      budget (fun part => ∀ id inner, part ≠ .traced id inner) where
  leaf g rule hg start := (Correspondence.watch_stepwise label start budget).leaf g rule hg
  notes notes _ _ _ h := .done (h.notes notes) trivial
  trace id g _ _ h := absurd rfl (h id g)
  parse _ producer options overrides _ _ _ h := Parser.Watched.nested h producer options overrides
  node _ _ _ h := Parser.Watched.traced h

end PullParse
