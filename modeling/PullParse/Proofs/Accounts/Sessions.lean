import PullParse.Proofs.Accounts.Books
import PullParse.Proofs.Entry.Scoping
import PullParse.Workspace.Parses
import PullParse.Workspace.Scopes

/-!
# Accounts of sessions

A session calls parses, and enters and leaves blocks of settings and of profiles,
the innermost block first. A block is left in the same way whether its last call
has answered or has raised. Leaving a block makes active again what was active
when it was entered, so the calls are counted in the accumulator of the innermost
profiled block, and at every moment each accumulator adds up to what the calls
made under it have entered.
-/

namespace PullParse

/-! ## Histories -/

/-- An open block, with the sessions right before and right after it was entered. -/
structure Block where
  name : String
  /-- Whether the block has an accumulator of its own, rather than settings. -/
  profiled : Bool
  before : Session
  inside : Session

/-- The blocks that are open, the innermost first, and the calls made up to a moment. -/
inductive History (budget : Nat) : List Block → List Call → Workspace → Prop
  | start : History budget [] [] .fresh
  | parse {blocks : List Block} {calls : List Call} {w w' : Workspace} {report : Report}
      (rules : Rules) (g : Grammar) (producer : Producer) (options : Options)
      (overrides : List (String × Value)) (h : History budget blocks calls w)
      (hrun : (Workspace.parseWith producer ((g.parser rules).parse options overrides)).run budget
        w = .done report w') :
      History budget blocks
        (calls ++ [⟨g.parser rules, producer, options, overrides, w.session, w'.session⟩]) w'
  | enterSettings {blocks : List Block} {calls : List Call} {w w' : Workspace} {new : Settings}
      (name : String) (fields : List (String × Value)) (h : History budget blocks calls w)
      (hname : name ∉ blocks.map Block.name)
      (hrun : (Workspace.enterSettings name fields).run budget w = .done new w') :
      History budget (⟨name, false, w.session, w'.session⟩ :: blocks) calls w'
  | enterProfile {blocks : List Block} {calls : List Call} {w w' : Workspace}
      {answer : Option Accumulator × Option Accumulator} (name : String)
      (h : History budget blocks calls w) (hname : name ∉ blocks.map Block.name)
      (hrun : (Workspace.enterProfile name).run budget w = .done answer w') :
      History budget (⟨name, true, w.session, w'.session⟩ :: blocks) calls w'
  | leave {block : Block} {blocks : List Block} {calls : List Call} {w w' : Workspace}
      {answer : Settings × Option Accumulator} (h : History budget (block :: blocks) calls w)
      (hrun : (Workspace.leave block.name).run budget w = .done answer w') :
      History budget blocks calls w'

/-- The accumulator of the innermost profiled block. -/
def innermostAccumulator : List Block → Option Nat
  | [] => none
  | block :: blocks =>
    if block.profiled then block.inside.profiler.active else innermostAccumulator blocks

/-- The entries of the calls that were made while an accumulator was the active one. -/
def entriesUnder (id : Nat) (books : List (Call × List Entry)) : List Entry :=
  books.flatMap fun b => if b.1.before.profiler.active = some id then b.2 else []

/-! ## Steps of a session -/

namespace Workspace

variable {budget : Nat} {w w' : Workspace}

theorem parseWith_done {producer : Producer} {x : Run Context (Value × Bool)} {report : Report}
    (h : (parseWith producer x).run budget w = .done report w') :
    ∃ ctx, (x.run budget (.opened producer w.session)).final? = some ctx ∧
      w' = { w with session := ctx.session } := by
  simp only [parseWith, Run.within, Run.run_bind, Run.attempt, everyFault, if_true] at h
  cases hx : x.run budget (.opened producer w.session) with
  | done answer ctx =>
      rw [hx] at h
      cases h
      exact ⟨ctx, rfl, rfl⟩
  | raised fault ctx =>
      rw [hx] at h
      cases h
      exact ⟨ctx, rfl, rfl⟩
  | unfinished =>
      rw [hx] at h
      cases h

theorem enterSettings_done {name : String} {fields : List (String × Value)} {new : Settings}
    (h : (enterSettings name fields).run budget w = .done new w') :
    w' = { w with
      session := { w.session with settings := new }
      scopes := (name, .settings w.session.settings) :: w.scopes } := by
  cases hfields : Settings.standard.override fields with
  | ok settings =>
      simp only [enterSettings, activeSettings, setFields, setSettings, onSession, addScope,
        Run.run_bind, Run.get, Run.modify, Run.ofExcept, hfields] at h
      cases h
      rfl
  | error fault =>
      simp only [enterSettings, activeSettings, setFields, Run.run_bind, Run.get, Run.ofExcept,
        hfields] at h
      cases h

theorem enterProfile_done {name : String} {answer : Option Accumulator × Option Accumulator}
    (h : (enterProfile name).run budget w = .done answer w') :
    w' = { w with
      session := { w.session with profiler := w.session.profiler.opened.2 }
      scopes := (name, .profile w.session.profiler.active) :: w.scopes
      profiles := (name, w.session.profiler.opened.1) :: w.profiles } := by
  cases h
  rfl

/-- What leaving a scope makes active again. -/
def reactivated (scope : Scope) (session : Session) : Session :=
  match scope with
  | .settings before => { session with settings := before }
  | .profile before => { session with profiler := session.profiler.restored before }

/-- The scope that was entered last is left, and the others stay. -/
theorem leave_run {name : String} {scope : Scope} {scopes : List (String × Scope)}
    (hscopes : w.scopes = (name, scope) :: scopes) (hname : name ∉ scopes.map Prod.fst) :
    ∃ answer, (leave name).run budget w =
      .done answer { w with session := reactivated scope w.session, scopes := scopes } := by
  have hfilter : w.scopes.filter (fun scope => scope.1 != name) = scopes := by
    rw [hscopes, List.filter_cons_of_neg (by simp), List.filter_eq_self]
    intro other hother
    have hne : other.1 ≠ name := fun heq => hname (heq ▸ List.mem_map_of_mem hother)
    simpa using hne
  have hlookup : w.scopes.lookup name = some scope := by
    rw [hscopes, List.lookup_cons_self]
  simp only [leave, Run.run_bind, Run.get, Run.modify, Ending.andThen, hfilter, hlookup]
  cases scope with
  | settings before => exact ⟨_, rfl⟩
  | profile before => exact ⟨_, rfl⟩

end Workspace

/-! ## Open blocks -/

/-- What the scope of a block keeps. -/
def Block.scope (block : Block) : Scope :=
  if block.profiled then .profile block.before.profiler.active else .settings block.before.settings

def scopesOf (blocks : List Block) : List (String × Scope) :=
  blocks.map fun block => (block.name, block.scope)

/-- What is active inside of blocks is what was active right behind the entry of the innermost one,
which differs in the accumulator or in the settings only from what was active before it. -/
inductive Stands : List Block → Settings → Option Nat → Prop
  | outside (settings : Settings) : Stands [] settings none
  | settings {block : Block} {blocks : List Block} (hprofiled : block.profiled = false)
      (hactive : block.inside.profiler.active = block.before.profiler.active)
      (h : Stands blocks block.before.settings block.before.profiler.active) :
      Stands (block :: blocks) block.inside.settings block.before.profiler.active
  | profile {block : Block} {blocks : List Block} (hprofiled : block.profiled = true)
      (h : Stands blocks block.before.settings block.before.profiler.active) :
      Stands (block :: blocks) block.before.settings block.inside.profiler.active

theorem Stands.active_eq {blocks : List Block} {settings : Settings} {active : Option Nat}
    (h : Stands blocks settings active) : active = innermostAccumulator blocks := by
  induction h with
  | outside => rfl
  | settings hprofiled _ _ ih => rw [innermostAccumulator, if_neg (by simp [hprofiled]), ih]
  | profile hprofiled _ _ => rw [innermostAccumulator, if_pos hprofiled]

theorem Stands.outer {block : Block} {blocks : List Block} {settings : Settings}
    {active : Option Nat} (h : Stands (block :: blocks) settings active) :
    Stands blocks block.before.settings block.before.profiler.active := by
  cases h with
  | settings _ _ h => exact h
  | profile _ h => exact h

/-- What was active before the innermost block can be made active again by its scope alone. -/
theorem Stands.reactivated_eq {block : Block} {blocks : List Block} {session : Session}
    (h : Stands (block :: blocks) session.settings session.profiler.active) :
    Workspace.reactivated block.scope session =
      { session with
        settings := block.before.settings
        profiler := session.profiler.restored block.before.profiler.active } := by
  obtain ⟨settings, ⟨accumulators, active⟩, log, journal⟩ := session
  cases h with
  | settings hprofiled _ _ =>
      rw [Block.scope, hprofiled]
      rfl
  | profile hprofiled _ =>
      rw [Block.scope, hprofiled]
      rfl

/-- The scopes of a session are those of the blocks it stands inside of, and every accumulator that
is active, or will be active again, is there. -/
structure Opened (blocks : List Block) (w : Workspace) : Prop where
  scopes : w.scopes = scopesOf blocks
  names : (blocks.map Block.name).Nodup
  stands : Stands blocks w.session.settings w.session.profiler.active
  known : ∀ id, w.session.profiler.active = some id → (w.session.profiler.get? id).isSome = true
  reachable : ∀ block ∈ blocks, ∀ id, block.before.profiler.active = some id →
    (w.session.profiler.get? id).isSome = true

/-- A new accumulator is empty, and the others are what they were. -/
theorem Profiler.get?_opened (p : Profiler) (id : Nat) :
    p.opened.2.get? id = if id = p.opened.1 then some .empty else p.get? id := by
  show (p.accumulators.push .empty)[id]? = if id = p.accumulators.size then _ else p.accumulators[id]?
  rw [Array.getElem?_push]

/-- An accumulator that is not there counts as an empty one. -/
theorem Profiler.getD_get?_opened (p : Profiler) (id : Nat) :
    (p.opened.2.get? id).getD .empty = (p.get? id).getD .empty := by
  rw [get?_opened]
  split
  case isTrue h =>
    have hnew : p.get? id = none := by
      rw [h]
      exact Array.getElem?_size
    rw [hnew]
    rfl
  case isFalse => rfl

theorem Profiler.isSome_get?_opened {p : Profiler} {id : Nat} (h : (p.get? id).isSome = true) :
    (p.opened.2.get? id).isSome = true := by
  rw [get?_opened]
  split
  · rfl
  · exact h

namespace Opened

variable {budget : Nat} {block : Block} {blocks : List Block} {w w' : Workspace}

theorem fresh : Opened [] .fresh where
  scopes := rfl
  names := List.nodup_nil
  stands := .outside _
  known := by
    intro id h
    cases h
  reachable := by
    intro block h
    cases h

/-- A call that gives the settings back and counts in accumulators that are there already leaves the
blocks as they are. -/
theorem session (h : Opened blocks w) {session : Session}
    (hsettings : session.settings = w.session.settings)
    (hactive : session.profiler.active = w.session.profiler.active)
    (hget : ∀ id, (session.profiler.get? id).isSome = (w.session.profiler.get? id).isSome) :
    Opened blocks { w with session := session } where
  scopes := h.scopes
  names := h.names
  stands := by
    show Stands blocks session.settings session.profiler.active
    rw [hsettings, hactive]
    exact h.stands
  known id hid := (hget id).trans (h.known id (hactive.symm.trans hid))
  reachable block hblock id hid := (hget id).trans (h.reachable block hblock id hid)

theorem enterSettings (h : Opened blocks w) {name : String} (hname : name ∉ blocks.map Block.name)
    {fields : List (String × Value)} {new : Settings}
    (hrun : (Workspace.enterSettings name fields).run budget w = .done new w') :
    Opened (⟨name, false, w.session, w'.session⟩ :: blocks) w' := by
  obtain rfl := Workspace.enterSettings_done hrun
  exact {
    scopes := congrArg (List.cons _) h.scopes
    names := List.nodup_cons.mpr ⟨hname, h.names⟩
    stands := @Stands.settings ⟨name, false, w.session, { w.session with settings := new }⟩ _
      rfl rfl h.stands
    known := h.known
    reachable := by
      intro block hblock id hid
      rcases List.mem_cons.mp hblock with rfl | hblock
      · exact h.known id hid
      · exact h.reachable block hblock id hid }

theorem enterProfile (h : Opened blocks w) {name : String} (hname : name ∉ blocks.map Block.name)
    {answer : Option Accumulator × Option Accumulator}
    (hrun : (Workspace.enterProfile name).run budget w = .done answer w') :
    Opened (⟨name, true, w.session, w'.session⟩ :: blocks) w' := by
  obtain rfl := Workspace.enterProfile_done hrun
  exact {
    scopes := congrArg (List.cons _) h.scopes
    names := List.nodup_cons.mpr ⟨hname, h.names⟩
    stands := @Stands.profile ⟨name, true, w.session,
      { w.session with profiler := w.session.profiler.opened.2 }⟩ _ rfl h.stands
    known := by
      intro id hid
      cases hid
      have hempty : w.session.profiler.opened.2.get? w.session.profiler.opened.1 = some .empty :=
        (Profiler.get?_opened _ _).trans (if_pos rfl)
      exact Option.isSome_of_eq_some hempty
    reachable := by
      intro block hblock id hid
      rcases List.mem_cons.mp hblock with rfl | hblock
      · exact Profiler.isSome_get?_opened (h.known id hid)
      · exact Profiler.isSome_get?_opened (h.reachable block hblock id hid) }

/-- Leaving the innermost block makes active again what was active before it, and does no more. -/
theorem leave_run (h : Opened (block :: blocks) w) (budget : Nat) :
    ∃ answer, (Workspace.leave block.name).run budget w = .done answer { w with
      session := { w.session with
        settings := block.before.settings
        profiler := w.session.profiler.restored block.before.profiler.active }
      scopes := scopesOf blocks } := by
  have hname : block.name ∉ (scopesOf blocks).map Prod.fst := by
    rw [scopesOf, List.map_map]
    exact (List.nodup_cons.mp h.names).1
  obtain ⟨answer, hrun⟩ := Workspace.leave_run h.scopes hname
  rw [h.stands.reactivated_eq] at hrun
  exact ⟨answer, hrun⟩

theorem leave (h : Opened (block :: blocks) w) {answer : Settings × Option Accumulator}
    (hrun : (Workspace.leave block.name).run budget w = .done answer w') : Opened blocks w' := by
  obtain ⟨_, hleft⟩ := h.leave_run budget
  rw [hleft] at hrun
  cases hrun
  exact {
    scopes := rfl
    names := (List.nodup_cons.mp h.names).2
    stands := h.stands.outer
    known := h.reachable block List.mem_cons_self
    reachable := fun other hother => h.reachable other (List.mem_cons_of_mem _ hother) }

end Opened

/-! ## Recorded calls -/

theorem entriesUnder_append (id : Nat) (books books' : List (Call × List Entry)) :
    entriesUnder id (books ++ books') = entriesUnder id books ++ entriesUnder id books' :=
  List.flatMap_append

/-- The log of a session is what its calls have written, and an accumulator, as long as it is not
there an empty one, is what the calls under it add up to. -/
structure Recorded (budget : Nat) (books : List (Call × List Entry)) (session : Session) :
    Prop where
  booked : ∀ b ∈ books, b.1.Booked budget b.2
  kept : ∀ b ∈ books, Books budget b.1.before b.2 b.1.after
  log : session.log.toList = books.flatMap fun b => Entry.records b.2
  counted : ∀ id, (session.profiler.get? id).getD .empty =
    (entriesUnder id books).foldl Entry.count .empty

namespace Recorded

variable {budget : Nat} {books : List (Call × List Entry)} {session session' : Session}

theorem fresh : Recorded budget [] .fresh where
  booked := by
    intro b hb
    cases hb
  kept := by
    intro b hb
    cases hb
  log := rfl
  counted _ := rfl

/-- What neither writes nor counts leaves everything recorded. -/
theorem quiet (h : Recorded budget books session) (hlog : session'.log = session.log)
    (hget : ∀ id, (session'.profiler.get? id).getD .empty =
      (session.profiler.get? id).getD .empty) : Recorded budget books session' where
  booked := h.booked
  kept := h.kept
  log := hlog ▸ h.log
  counted id := (hget id).trans (h.counted id)

/-- A call adds its entries to the log and to the accumulator that is active before it. -/
theorem call {c : Call} {entries : List Entry} (h : Recorded budget books c.before)
    (hknown : ∀ id, c.before.profiler.active = some id →
      (c.before.profiler.get? id).isSome = true)
    (hbooked : c.Booked budget entries) (hbooks : Books budget c.before entries c.after) :
    Recorded budget (books ++ [(c, entries)]) c.after where
  booked b hb := by
    rcases List.mem_append.mp hb with hb | hb
    · exact h.booked b hb
    · obtain rfl := List.mem_singleton.mp hb
      exact hbooked
  kept b hb := by
    rcases List.mem_append.mp hb with hb | hb
    · exact h.kept b hb
    · obtain rfl := List.mem_singleton.mp hb
      exact hbooks
  log := by
    rw [List.flatMap_append, ← h.log, List.flatMap_singleton, hbooks.log_eq]
  counted id := by
    rw [entriesUnder_append, List.foldl_append, ← h.counted, hbooks.get?_eq id, entriesUnder,
      List.flatMap_singleton]
    by_cases hactive : c.before.profiler.active = some id
    · obtain ⟨acc, hacc⟩ := Option.isSome_iff_exists.mp (hknown id hactive)
      rw [if_pos hactive, hacc]
      simp only [if_pos hactive, Option.map_some, Option.getD_some]
    · rw [if_neg hactive]
      simp only [if_neg hactive, Option.map_id', List.foldl_nil]

/-- In each accumulator the counts are those of the records that end runs. -/
theorem countP_entriesUnder (h : Recorded budget books session) (id : Nat) (success : Bool) :
    (entriesUnder id books).countP (Entry.counts success) =
      (Entry.records (entriesUnder id books)).countP (LogRecord.closes success) := by
  have hbooks := h.kept
  clear h
  induction books with
  | nil => rfl
  | cons b books ih =>
      have hrest := ih fun b' hb' => hbooks b' (List.mem_cons_of_mem _ hb')
      have hhead : (if b.1.before.profiler.active = some id then b.2 else []).countP
          (Entry.counts success) =
            (Entry.records (if b.1.before.profiler.active = some id then b.2 else [])).countP
              (LogRecord.closes success) := by
        split
        · exact (hbooks b List.mem_cons_self).countP_counts success
        · rfl
      rw [entriesUnder] at hrest ⊢
      rw [List.flatMap_cons, List.countP_append, hhead, hrest, Entry.records, Entry.records,
        Entry.records, List.filterMap_append, List.countP_append]

/-- An accumulator says how many runs have ended under it, how they ended and what they pulled. -/
theorem accumulator_eq (h : Recorded budget books session) {id : Nat} {acc : Accumulator}
    (hacc : session.profiler.get? id = some acc) :
    acc.parseCalls = acc.successes + acc.failures ∧
      acc.successes =
        (Entry.records (entriesUnder id books)).countP (LogRecord.closes true) ∧
      acc.failures =
        (Entry.records (entriesUnder id books)).countP (LogRecord.closes false) ∧
      acc.tokensPulled = ((entriesUnder id books).map Entry.pulled).sum := by
  have hcounted := h.counted id
  rw [hacc, Option.getD_some, Entry.foldl_count, h.countP_entriesUnder id true,
    h.countP_entriesUnder id false] at hcounted
  subst hcounted
  simp [Accumulator.empty]

end Recorded

/-! ## Every session adds up -/

/-- What is open in a session, and what is recorded in it. -/
theorem History.sound {budget : Nat} {blocks : List Block} {calls : List Call} {w : Workspace}
    (h : History budget blocks calls w) :
    Opened blocks w ∧
      ∃ books : List (Call × List Entry), books.map Prod.fst = calls ∧
        Recorded budget books w.session := by
  induction h with
  | start => exact ⟨.fresh, [], rfl, .fresh⟩
  | @parse blocks calls w w' report rules g producer options overrides _ hrun ih =>
      obtain ⟨hopened, books, hcalls, hrecorded⟩ := ih
      obtain ⟨ctx, hfinal, rfl⟩ := Workspace.parseWith_done hrun
      have hmade : (Call.mk (g.parser rules) producer options overrides w.session
          ctx.session).Made budget := ⟨ctx, hfinal, rfl⟩
      obtain ⟨entries, hbooked⟩ := Call.booked_grammar rules g rfl hmade
      have hbooks := hbooked.books hmade
      have hget : ∀ id, (ctx.session.profiler.get? id).isSome =
          (w.session.profiler.get? id).isSome := fun id => by
        rw [hbooks.get?_eq id, Option.isSome_map]
      refine ⟨hopened.session (Parser.settings_parse _ _ _ hfinal) hbooks.active_eq hget,
        books ++ [(_, entries)], ?_, hrecorded.call hopened.known hbooked hbooks⟩
      rw [List.map_append, hcalls]
      rfl
  | enterSettings name fields _ hname hrun ih =>
      obtain ⟨hopened, books, hcalls, hrecorded⟩ := ih
      refine ⟨hopened.enterSettings hname hrun, books, hcalls, ?_⟩
      obtain rfl := Workspace.enterSettings_done hrun
      exact hrecorded.quiet rfl fun id => rfl
  | @enterProfile blocks calls w w' answer name _ hname hrun ih =>
      obtain ⟨hopened, books, hcalls, hrecorded⟩ := ih
      refine ⟨hopened.enterProfile hname hrun, books, hcalls, ?_⟩
      obtain rfl := Workspace.enterProfile_done hrun
      exact hrecorded.quiet rfl fun id => w.session.profiler.getD_get?_opened id
  | @leave block blocks calls w w' answer _ hrun ih =>
      obtain ⟨hopened, books, hcalls, hrecorded⟩ := ih
      refine ⟨hopened.leave hrun, books, hcalls, ?_⟩
      obtain ⟨_, hleft⟩ := hopened.leave_run budget
      rw [hleft] at hrun
      cases hrun
      exact hrecorded.quiet rfl fun id => rfl

/-- **Sessions add up.** At every moment of a session the innermost open block can be left, and then
the settings and the accumulator are active that were active when it was entered, and nothing else
has changed. Until then the accumulator of the innermost profiled block is the active one. A call of
a grammar, made by the session or by a parser that is running inside another call, is booked: what
it writes into the log, and counts in the accumulator that is active, is the start of its own run,
what the runs inside it enter, and the end of its own run, if it gets past its first pull, and
nothing otherwise. So is every call of the session up to that moment, and the log holds their
records, one call after the other, while every accumulator has as many successes and failures as
runs have been recorded as finished and as failed or aborted while it was active, as many calls as
both together, and the tokens that those runs have pulled. -/
theorem sessions_add_up (budget : Nat) (blocks : List Block) (calls : List Call) (w : Workspace)
    (h : History budget blocks calls w) :
    (∀ block outer, blocks = block :: outer →
        ∃ answer w', (Workspace.leave block.name).run budget w = .done answer w' ∧
          w'.session = { w.session with
            settings := block.before.settings
            profiler := w.session.profiler.restored block.before.profiler.active }) ∧
      w.session.profiler.active = innermostAccumulator blocks ∧
      (∀ (rules : Rules) (g : Grammar) (c : Call), c.parser = g.parser rules → c.Made budget →
        ∃ entries, c.Booked budget entries ∧
          c.after.log.toList = c.before.log.toList ++ Entry.records entries ∧
          c.after.profiler.active = c.before.profiler.active ∧
          ∀ id, c.after.profiler.get? id = (c.before.profiler.get? id).map fun acc =>
            if c.before.profiler.active = some id then entries.foldl Entry.count acc else acc) ∧
      ∃ books : List (Call × List Entry), books.map Prod.fst = calls ∧
        (∀ b ∈ books, b.1.Booked budget b.2) ∧
        w.session.log.toList = (books.flatMap fun b => Entry.records b.2) ∧
        ∀ id acc, w.session.profiler.get? id = some acc →
          acc.parseCalls = acc.successes + acc.failures ∧
            acc.successes =
              (Entry.records (entriesUnder id books)).countP (LogRecord.closes true) ∧
            acc.failures =
              (Entry.records (entriesUnder id books)).countP (LogRecord.closes false) ∧
            acc.tokensPulled = ((entriesUnder id books).map Entry.pulled).sum := by
  obtain ⟨hopened, books, hcalls, hrecorded⟩ := h.sound
  refine ⟨?_, hopened.stands.active_eq, ?_, books, hcalls, hrecorded.booked, hrecorded.log, ?_⟩
  · rintro block outer rfl
    obtain ⟨answer, hleft⟩ := hopened.leave_run budget
    exact ⟨answer, _, hleft, rfl⟩
  · intro rules g c hparser hmade
    obtain ⟨entries, hbooked⟩ := Call.booked_grammar rules g hparser hmade
    have hbooks := hbooked.books hmade
    exact ⟨entries, hbooked, hbooks.log_eq, hbooks.active_eq, hbooks.get?_eq⟩
  · exact fun id acc hacc => hrecorded.accumulator_eq hacc

/-- Reads a token, and parses another stream for its end. -/
def lookingAside : Grammar :=
  .andThen .anyToken (.nested .eof (.ofTokens [⟨.str "num", .null⟩]) .active [])

/-- Inside a profile a call matches, under settings with which the failure of the parse inside it is
an answer. The settings are left, and the next call is broken off by a fault that is not hard, so it
is not counted: the profile has counted the match and the failure inside it. Then the profile can be
left too. -/
theorem sessions_add_up_interrupted :
    ∃ block calls w, History 4 [block] calls w ∧
      w.session.log.toList.map LogRecord.message =
        ["parse started: user_data=None", "parse started: user_data=None",
          "parse failed: no match at top level", "parse finished: position=1 tokens_pulled=1",
          "parse started: user_data=None"] ∧
      (∃ books : List (Call × List Entry), books.map Prod.fst = calls ∧
        (Entry.records (entriesUnder 0 books)).countP (LogRecord.closes true) = 1 ∧
        (Entry.records (entriesUnder 0 books)).countP (LogRecord.closes false) = 1 ∧
        ((entriesUnder 0 books).map Entry.pulled).sum = 2) ∧
      ∃ answer w', (Workspace.leave block.name).run 4 w = .done answer w' ∧
        w'.session.profiler.active = none := by
  let rules : Rules := fun _ _ => .eof
  let num : Producer := .ofTokens [⟨.str "num", .null⟩]
  let log : Array LogRecord := #[.started .null, .started .null, .failed, .finished 1 1]
  have hquiet : History 4 _ []
      ⟨⟨{ Settings.standard with propagate := .bool false }, ⟨#[.empty], some 0⟩, #[], #[]⟩,
        #[], [], [("quiet", .settings .standard), ("profile", .profile none)], [("profile", 0)]⟩ :=
    .enterSettings "quiet" [("error_propagation", .bool false)]
      (.enterProfile "profile" .start (by decide) rfl) (by decide) rfl
  have hmatched : History 4 _ _
      ⟨⟨{ Settings.standard with propagate := .bool false }, ⟨#[⟨2, 1, 1, 2⟩], some 0⟩, log,
          #[.pull 1, .pull 1]⟩,
        #[], [], [("quiet", .settings .standard), ("profile", .profile none)], [("profile", 0)]⟩ :=
    .parse rules lookingAside num .active [] hquiet rfl
  have hleft : History 4 _ _
      ⟨⟨.standard, ⟨#[⟨2, 1, 1, 2⟩], some 0⟩, log, #[.pull 1, .pull 1]⟩,
        #[], [], [("profile", .profile none)], [("profile", 0)]⟩ := hmatched.leave rfl
  have hbroken : History 4 _ _
      ⟨⟨.standard, ⟨#[⟨2, 1, 1, 2⟩], some 0⟩, log.push (.started .null),
          #[.pull 1, .pull 1, .pull 1]⟩,
        #[], [], [("profile", .profile none)], [("profile", 0)]⟩ :=
    .parse rules (.andThen .anyToken (.raise .outOfRange)) num .active [] hleft rfl
  obtain ⟨hleave, -, -, books, hcalls, -, -, hsums⟩ := sessions_add_up 4 _ _ _ hbroken
  obtain ⟨-, hsuccesses, hfailures, htokens⟩ := hsums 0 ⟨2, 1, 1, 2⟩ rfl
  obtain ⟨answer, w', hrun, hsession⟩ := hleave _ _ rfl
  exact ⟨_, _, _, hbroken, by decide, ⟨books, hcalls, hsuccesses.symm, hfailures.symm,
    Int.ofNat_inj.mp htokens.symm⟩, answer, w', hrun, by rw [hsession]; rfl⟩

end PullParse
