import PullParse.Proofs.Correspondence.Invariants
import PullParse.Proofs.Entry.Conclusion

/-!
# Books of runs

What runs write into the log and count in the profile can be told entry by entry.
A parse that gets past its first pull writes that it has started, then what the
parses inside it write, and at last what its own ending calls for: a record and a
count, or nothing if a fault that is not hard has broken it off. Nothing else in
a run is entered, so what a grammar enters is one such parse after the other, at
every depth.
-/

namespace PullParse

/-! ## Entries -/

/-- A record in the log, or a count in the active accumulator. -/
inductive Entry where
  | logged (record : LogRecord)
  | counted (pulls : Nat) (success : Bool)

namespace Entry

def record? : Entry → Option LogRecord
  | .logged record => some record
  | .counted _ _ => none

/-- The records among some entries. -/
def records (entries : List Entry) : List LogRecord := entries.filterMap record?

/-- What an entry adds to the accumulator that it is counted in. -/
def count (a : Accumulator) : Entry → Accumulator
  | .logged _ => a
  | .counted pulls success => a.record pulls success

/-- The tokens that the counted runs have pulled. -/
def pulled : Entry → Nat
  | .logged _ => 0
  | .counted pulls _ => pulls

/-- Whether an entry counts a success, or a failure. -/
def counts (success : Bool) : Entry → Bool
  | .logged _ => false
  | .counted _ success' => success' == success

end Entry

/-- Whether a record tells of a match, or of a failure that ends a run. -/
def LogRecord.closes (success : Bool) : LogRecord → Bool
  | .started _ => false
  | .aborted _ | .failed => !success
  | .finished _ _ => success

/-- What is accounted for of a session. -/
structure Accounts where
  log : List LogRecord
  profiler : Profiler

def Session.accounts (session : Session) : Accounts := ⟨session.log.toList, session.profiler⟩

/-- An entry is made. -/
def Accounts.enter (a : Accounts) : Entry → Accounts
  | .logged record => { a with log := a.log ++ [record] }
  | .counted pulls success => { a with profiler := a.profiler.record pulls success }

namespace Accounts

theorem log_enter (a : Accounts) (entries : List Entry) :
    (entries.foldl enter a).log = a.log ++ Entry.records entries := by
  induction entries generalizing a with
  | nil => exact (List.append_nil _).symm
  | cons entry entries ih =>
      rw [List.foldl_cons, ih]
      cases entry with
      | logged record => exact List.append_assoc _ _ _
      | counted pulls success => rfl

theorem active_enter (a : Accounts) (entries : List Entry) :
    (entries.foldl enter a).profiler.active = a.profiler.active := by
  induction entries generalizing a with
  | nil => rfl
  | cons entry entries ih =>
      rw [List.foldl_cons, ih]
      cases entry with
      | logged record => rfl
      | counted pulls success =>
          show (a.profiler.record pulls success).active = _
          unfold Profiler.record
          cases h : a.profiler.active with
          | none => exact h
          | some id => exact h

end Accounts

/-- A run is counted in the active accumulator and in no other one. -/
theorem Profiler.get?_record (p : Profiler) (tokens : Int) (success : Bool) (id : Nat) :
    (p.record tokens success).get? id =
      (p.get? id).map fun a => if p.active = some id then a.record tokens success else a := by
  unfold record
  cases hactive : p.active with
  | none => simp
  | some active =>
      simp only [get?, recordIn, Array.getElem?_modify, Option.some.injEq]
      by_cases h : active = id
      · simp [h]
      · simp [h]

theorem Accounts.get?_enter (a : Accounts) (entries : List Entry) (id : Nat) :
    (entries.foldl enter a).profiler.get? id = (a.profiler.get? id).map fun acc =>
      if a.profiler.active = some id then entries.foldl Entry.count acc else acc := by
  induction entries generalizing a with
  | nil => simp
  | cons entry entries ih =>
      have hactive := active_enter a [entry]
      simp only [List.foldl_cons, List.foldl_nil] at hactive
      rw [List.foldl_cons, ih, hactive]
      cases entry with
      | logged record => rfl
      | counted pulls success =>
          show Option.map _ ((a.profiler.record pulls success).get? id) = _
          rw [Profiler.get?_record, Option.map_map]
          by_cases h : a.profiler.active = some id
          · simp [h, Entry.count, Function.comp_def]
          · simp [h, Function.comp_def]

/-! ## Calls -/

/-- A call of a parse, with the sessions before and after it. -/
structure Call where
  parser : Parser
  producer : Producer
  options : Options
  overrides : List (String × Value)
  before : Session
  after : Session

/-- What the end of a run calls for. -/
def Ending.closing : Ending Context Outcome → List Entry
  | .done (.matched _ s) ctx =>
    [.logged (.finished s.position ctx.cache.pulls), .counted ctx.cache.pulls true]
  | .done .noMatch ctx => [.logged .failed, .counted ctx.cache.pulls false]
  | .raised fault ctx =>
    if fault.isHard then [.logged (.aborted fault), .counted ctx.cache.pulls false] else []
  | .unfinished => []

namespace Call

variable (budget : Nat) (c : Call)

/-- The call comes to an end, and has left the session after it. -/
def Made : Prop :=
  ∃ ctx, ((c.parser.parse c.options c.overrides).run budget
    (.opened c.producer c.before)).final? = some ctx ∧ ctx.session = c.after

/-- The call gets past its first pull, and its parser ends like this. -/
structure Started (settings : Settings) (ending : Ending Context Outcome) (last : Context) :
    Prop where
  resolves : c.options.resolve c.before.settings c.overrides = .ok settings
  pulls : ∃ token, ((Cache.fresh c.producer).tokenAt 0).1 = .ok token
  runs : (c.parser ⟨0, settings.userData⟩).run budget (.started c.producer c.before settings) =
    ending
  ends : ending.final? = some last

/-- The settings of the call do not resolve, or its first pull fails. -/
def Unstarted : Prop :=
  ∀ settings, c.options.resolve c.before.settings c.overrides = .ok settings →
    ∃ fault, ((Cache.fresh c.producer).tokenAt 0).1 = .error fault

end Call

/-- What has been entered from one session to another: nothing, or what one part after the other
enters, or what a call enters, with its first record in front of the entries of the calls inside it,
and with what its ending calls for behind them. -/
inductive Books (budget : Nat) : Session → List Entry → Session → Prop
  | quiet {s s' : Session} (h : s'.accounts = s.accounts) : Books budget s [] s'
  | append {s s' s'' : Session} {entries entries' : List Entry} (h : Books budget s entries s')
      (h' : Books budget s' entries' s'') : Books budget s (entries ++ entries') s''
  | call {c : Call} (hmade : c.Made budget) {settings : Settings}
      {ending : Ending Context Outcome} {last : Context} {inner : List Entry}
      (hstarted : c.Started budget settings ending last)
      (hinner : Books budget (Context.started c.producer c.before settings).session inner
        last.session) :
      Books budget c.before
        (.logged (.started settings.userData) :: (inner ++ ending.closing)) c.after

/-- What a single call enters. -/
inductive Call.Booked (budget : Nat) (c : Call) : List Entry → Prop
  | unstarted (h : c.Unstarted) (haccounts : c.after.accounts = c.before.accounts) :
      Booked budget c []
  | started {settings : Settings} {ending : Ending Context Outcome} {last : Context}
      {inner : List Entry} (hstarted : c.Started budget settings ending last)
      (hinner : Books budget (Context.started c.producer c.before settings).session inner
        last.session) :
      Booked budget c (.logged (.started settings.userData) :: (inner ++ ending.closing))

/-! ## What is entered is accounted for -/

variable {budget : Nat}

/-- Behind the end of its parser a parse enters what that ending calls for. -/
theorem Parser.accounts_concluded (caller settings : Settings) {e : Ending Context Outcome}
    {last ctx : Context} (hlast : e.final? = some last)
    (h : (concluded caller settings e).final? = some ctx) :
    ctx.session.accounts = e.closing.foldl Accounts.enter last.session.accounts := by
  have hclosed : ∀ record success (ctx : Context),
      (ctx.closed caller record success).session.accounts =
        [.logged record, .counted ctx.cache.pulls success].foldl Accounts.enter
          ctx.session.accounts := by
    intro record success ctx
    show Accounts.mk (ctx.session.log.push record).toList _ = _
    rw [Array.toList_push]
    rfl
  cases e with
  | done outcome _ =>
      obtain rfl := Option.some.inj hlast
      cases outcome with
      | matched value s =>
          obtain rfl := Option.some.inj h
          exact hclosed _ _ _
      | noMatch =>
          rw [concluded, Ending.final?_ofExcept] at h
          obtain rfl := Option.some.inj h
          exact hclosed _ _ _
  | raised fault _ =>
      obtain rfl := Option.some.inj hlast
      rw [Ending.closing]
      by_cases hhard : fault.isHard = true
      · rw [concluded, if_pos hhard, Ending.final?_ofExcept] at h
        obtain rfl := Option.some.inj h
        rw [if_pos hhard]
        exact hclosed _ _ _
      · rw [concluded, if_neg hhard] at h
        obtain rfl := Option.some.inj h
        rw [if_neg hhard]
        rfl
  | unfinished => cases hlast

/-- A read of a token enters nothing. -/
theorem Context.accounts_tokenAt (position : Int) (ctx : Context) :
    (ctx.tokenAt position).2.session.accounts = ctx.session.accounts := by
  obtain ⟨cache, session⟩ := ctx
  simp only [tokenAt]
  split
  · rfl
  · rfl

/-- Where a parse starts its parser, its start is entered. -/
theorem Context.accounts_started (producer : Producer) (session : Session) (settings : Settings) :
    (started producer session settings).session.accounts =
      session.accounts.enter (.logged (.started settings.userData)) := by
  have hpulled := accounts_tokenAt 0 (opened producer { session with settings := settings })
  have hlogged : ∀ (ctx : Context) record,
      (ctx.mapSession fun s => s.logged record).session.accounts =
        ctx.session.accounts.enter (.logged record) := by
    intro ctx record
    show Accounts.mk (ctx.session.log.push record).toList _ = _
    rw [Array.toList_push]
    rfl
  rw [started, hlogged, hpulled]
  rfl

namespace Call.Made

variable {c : Call}

theorem accounts_started (hmade : c.Made budget) {settings : Settings}
    {ending : Ending Context Outcome} {last : Context}
    (h : c.Started budget settings ending last) :
    c.after.accounts = ending.closing.foldl Accounts.enter last.session.accounts := by
  obtain ⟨ctx, hfinal, hafter⟩ := hmade
  obtain ⟨token, hfirst⟩ := h.pulls
  rw [Parser.parse_run h.resolves hfirst, h.runs] at hfinal
  rw [← hafter]
  exact Parser.accounts_concluded _ _ h.ends hfinal

/-- A call that does not start enters nothing. -/
theorem accounts_unstarted (hmade : c.Made budget) (h : c.Unstarted) :
    c.after.accounts = c.before.accounts := by
  obtain ⟨ctx, hfinal, hafter⟩ := hmade
  rw [← hafter]
  cases hresolve : c.options.resolve c.before.settings c.overrides with
  | error fault =>
      rw [Parser.parse_refused (.opened c.producer c.before) hresolve] at hfinal
      obtain rfl := Option.some.inj hfinal
      rfl
  | ok settings =>
      obtain ⟨fault, hfirst⟩ := h settings hresolve
      rw [Parser.parse_unstarted hresolve hfirst] at hfinal
      obtain rfl := Option.some.inj hfinal
      exact Context.accounts_tokenAt 0 (.opened c.producer { c.before with settings := settings })

/-- A call that ends has started its parser, which has ended, or has not started. -/
theorem started_or (hmade : c.Made budget) :
    c.Unstarted ∨ ∃ settings ending last, c.Started budget settings ending last := by
  obtain ⟨ctx, hfinal, -⟩ := hmade
  cases hresolve : c.options.resolve c.before.settings c.overrides with
  | error fault => exact .inl fun settings h => by rw [hresolve] at h; cases h
  | ok settings =>
      cases hfirst : ((Cache.fresh c.producer).tokenAt 0).1 with
      | error fault => exact .inl fun _ _ => ⟨fault, hfirst⟩
      | ok token =>
          right
          rw [Parser.parse_run hresolve hfirst] at hfinal
          obtain ⟨last, hlast, -, -⟩ := Parser.final?_of_concluded _ _ hfinal
          exact ⟨settings, _, last, hresolve, ⟨token, hfirst⟩, rfl, hlast⟩

end Call.Made

namespace Books

variable {s s' : Session} {entries : List Entry}

/-- Nothing but the entries is written. -/
theorem accounts_eq (h : Books budget s entries s') :
    s'.accounts = entries.foldl Accounts.enter s.accounts := by
  induction h with
  | quiet h => exact h
  | append _ _ ih ih' => rw [List.foldl_append, ← ih, ih']
  | call hmade hstarted _ ih =>
      rw [hmade.accounts_started hstarted, ih, Context.accounts_started, List.foldl_cons,
        List.foldl_append]

theorem log_eq (h : Books budget s entries s') :
    s'.log.toList = s.log.toList ++ Entry.records entries :=
  (congrArg Accounts.log h.accounts_eq).trans (Accounts.log_enter _ _)

theorem active_eq (h : Books budget s entries s') :
    s'.profiler.active = s.profiler.active :=
  (congrArg (fun a => a.profiler.active) h.accounts_eq).trans (Accounts.active_enter _ _)

/-- The entries are counted in the active accumulator, and no other one changes. -/
theorem get?_eq (h : Books budget s entries s') (id : Nat) :
    s'.profiler.get? id = (s.profiler.get? id).map fun acc =>
      if s.profiler.active = some id then entries.foldl Entry.count acc else acc :=
  (congrArg (fun a => a.profiler.get? id) h.accounts_eq).trans (Accounts.get?_enter _ _ id)

/-- Every record that ends a run goes with a count, and the other way round. -/
theorem countP_counts (h : Books budget s entries s') (success : Bool) :
    entries.countP (Entry.counts success) =
      (Entry.records entries).countP (LogRecord.closes success) := by
  have hclosing : ∀ ending : Ending Context Outcome,
      ending.closing.countP (Entry.counts success) =
        (Entry.records ending.closing).countP (LogRecord.closes success) := by
    intro ending
    cases ending with
    | done outcome ctx => cases outcome <;> cases success <;> rfl
    | raised fault ctx =>
        rw [Ending.closing]
        split
        · cases success <;> rfl
        · rfl
    | unfinished => rfl
  induction h with
  | quiet _ => rfl
  | append _ _ ih ih' =>
      rw [List.countP_append, ih, ih', Entry.records, Entry.records, Entry.records,
        List.filterMap_append, List.countP_append]
  | @call c _ settings ending last inner _ _ ih =>
      have hrecords : Entry.records (.logged (.started settings.userData) ::
          (inner ++ ending.closing)) =
            .started settings.userData :: (Entry.records inner ++ Entry.records ending.closing) := by
        simp [Entry.records, Entry.record?]
      rw [hrecords, List.countP_cons, List.countP_cons, List.countP_append, List.countP_append, ih,
        hclosing]
      rfl

end Books

/-- What a list of entries adds up to in an accumulator. -/
theorem Entry.foldl_count (a : Accumulator) (entries : List Entry) :
    entries.foldl count a =
      { parseCalls := a.parseCalls + (entries.countP (counts true) + entries.countP (counts false))
        successes := a.successes + entries.countP (counts true)
        failures := a.failures + entries.countP (counts false)
        tokensPulled := a.tokensPulled + (entries.map pulled).sum } := by
  induction entries generalizing a with
  | nil => simp
  | cons entry entries ih =>
      rw [List.foldl_cons, ih]
      cases entry with
      | logged record => simp [count, counts, pulled]
      | counted pulls success =>
          cases success <;> simp [count, counts, pulled, Accumulator.record] <;> omega

/-! ## Every run keeps its books -/

/-- A call whose parser keeps its books from every session on enters what a call enters. -/
theorem Call.Made.booked {c : Call} (hmade : c.Made budget)
    (hparser : ∀ s ctx last, ((c.parser s).run budget ctx).final? = some last →
      ∃ entries, Books budget ctx.session entries last.session) :
    ∃ entries, c.Booked budget entries := by
  rcases hmade.started_or with hunstarted | ⟨settings, ending, last, hstarted⟩
  · exact ⟨[], .unstarted hunstarted (hmade.accounts_unstarted hunstarted)⟩
  · obtain ⟨inner, hinner⟩ := hparser _ _ last (hstarted.runs ▸ hstarted.ends)
    exact ⟨_, .started hstarted hinner⟩

theorem Call.Booked.books {c : Call} {entries : List Entry} (h : c.Booked budget entries)
    (hmade : c.Made budget) : Books budget c.before entries c.after := by
  cases h with
  | unstarted _ haccounts => exact .quiet haccounts
  | started hstarted hinner => exact .call hmade hstarted hinner

/-- The steps of a run keep its books. -/
theorem Books.upheld (budget : Nat) :
    Upheld budget (fun (start : Session) ctx => ∃ entries, Books budget start entries ctx.session)
      (fun start _ ctx => ∃ entries, Books budget start entries ctx.session) where
  starts ctx := ⟨ctx.session, [], .quiet rfl⟩
  broken h _ := h
  tokenAt {start ctx} h position := by
    obtain ⟨entries, h⟩ := h
    have hread : ∃ entries, Books budget start entries (ctx.tokenAt position).2.session :=
      ⟨_, h.append (.quiet (ctx.accounts_tokenAt position))⟩
    simp only [Run.tokenAt]
    cases (ctx.tokenAt position).1 with
    | ok token => exact .done hread
    | error fault => exact .raised hread
  quiet h session hlog hprofiler := by
    obtain ⟨entries, h⟩ := h
    exact ⟨_, h.append (.quiet (by rw [Session.accounts, hlog, hprofiler]; rfl))⟩
  quiet_left h session hlog hprofiler := by
    obtain ⟨entries, h⟩ := h
    exact ⟨_, h.append (.quiet (by rw [Session.accounts, hlog, hprofiler]; rfl))⟩
  parse {start ctx} p producer options overrides hp h := by
    obtain ⟨entries, h⟩ := h
    have hparser : ∀ s ctx last, ((p s).run budget ctx).final? = some last →
        ∃ entries, Books budget ctx.session entries last.session := by
      intro s ctx last hlast
      exact (hp ctx.session s ctx ⟨[], .quiet rfl⟩).final hlast
    have hcall : ∀ inner, ((p.parse options overrides).run budget
        (.opened producer ctx.session)).final? = some inner →
          ∃ entries, Books budget start entries inner.session := by
      intro inner hinner
      have hmade : (Call.mk p producer options overrides ctx.session inner.session).Made budget :=
        ⟨inner, hinner, rfl⟩
      obtain ⟨added, hbooked⟩ := hmade.booked hparser
      exact ⟨_, h.append (hbooked.books hmade)⟩
    generalize (p.parse options overrides).run budget (.opened producer ctx.session) = e at hcall ⊢
    cases e with
    | done answer inner => exact .done (hcall inner rfl)
    | raised fault inner => exact .raised (hcall inner rfl)
    | unfinished => exact .unfinished

/-- Every run of a grammar keeps its books. -/
theorem Grammar.books (rules : Rules) (g : Grammar) (s : State) {ctx last : Context}
    (hlast : ((g.parser rules s).run budget ctx).final? = some last) :
    ∃ entries, Books budget ctx.session entries last.session :=
  ((Books.upheld budget).grammar rules g ctx.session s ⟨[], .quiet rfl⟩).final hlast

/-- **Every call of a grammar is booked,** whatever parses run inside it, and however deep. -/
theorem Call.booked_grammar (rules : Rules) (g : Grammar) {c : Call}
    (hparser : c.parser = g.parser rules) (hmade : c.Made budget) :
    ∃ entries, c.Booked budget entries := by
  refine hmade.booked fun s ctx last hlast => ?_
  rw [hparser] at hlast
  exact g.books rules s hlast

/-- The accumulator that is active at the end of the run of a grammar in a parse is the one that was
active before the parse. -/
theorem Grammar.active_started (rules : Rules) (g : Grammar) (s : State) {producer : Producer}
    {session : Session} {settings : Settings} {last : Context}
    (hlast : ((g.parser rules s).run budget (.started producer session settings)).final? =
      some last) : last.session.profiler.active = session.profiler.active := by
  obtain ⟨entries, hbooks⟩ := g.books rules s hlast
  refine hbooks.active_eq.trans ?_
  exact congrArg (fun a => a.profiler.active) (Context.accounts_started producer session settings)

end PullParse
