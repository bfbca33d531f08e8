import PullParse.Proofs.Correspondence.Grammar
import PullParse.Proofs.Entry.Conclusion
import PullParse.Proofs.Faults.Logs

/-!
# Watched runs

A watched run marks every part of a grammar in the journal, under a label, where
it is entered and where it ends. But for the marks it is the run itself, and the
marks form a log of parts. A parse inside the run is a step of it, like the call
of a callback: what it marks is left out, and what it calls is kept. The run of
its own grammar is watched in its own right.
-/

namespace PullParse

/-! ## Journals without marks -/

def Session.unmarked (session : Session) : Session :=
  { session with journal := session.journal.filter Event.isCall }

def Context.unmarked (ctx : Context) : Context := ctx.mapSession Session.unmarked

theorem Session.unmarked_write_call (session : Session) {event : Event}
    (h : event.isCall = true) : (session.write event).unmarked = session.unmarked.write event := by
  simp only [unmarked, write, Array.filter_push, if_pos h]

theorem Session.unmarked_write_mark (session : Session) {event : Event}
    (h : event.isCall = false) : (session.write event).unmarked = session.unmarked := by
  simp only [unmarked, write, Array.filter_push, h]
  rfl

/-- The journal as it was before, with the calls that have been added since. -/
def Session.secluded (before session : Session) : Session :=
  let added := session.journal.toList.drop before.journal.toList.length
  { session with journal := (before.journal.toList ++ added.filter Event.isCall).toArray }

/-- Of what `p` adds to the journal, the calls alone stay. -/
def Parser.secluded (p : Parser) : Parser := fun s => do
  let ctx ← Run.get
  (p s).restoring fun ctx' => ctx'.mapSession ctx.session.secluded

theorem Session.journal_secluded {before session : Session} {inner : List Event}
    (h : session.journal.toList = before.journal.toList ++ inner) :
    (before.secluded session).journal.toList =
      before.journal.toList ++ inner.filter Event.isCall := by
  rw [secluded, h, List.drop_left]

theorem Session.unmarked_secluded {before session : Session} {inner : List Event}
    (h : session.journal.toList = before.journal.toList ++ inner) :
    (before.secluded session).unmarked = session.unmarked := by
  have hjournal : (before.secluded session).journal.filter Event.isCall =
      session.journal.filter Event.isCall := by
    rw [← Array.toList_inj, Array.toList_filter, Array.toList_filter, journal_secluded h, h,
      List.filter_append, List.filter_append, List.filter_filter]
    simp only [Bool.and_self]
  rw [unmarked, unmarked, hjournal]
  rfl

/-! ## The log of a watched run -/

/-- The contexts differ in marks alone, and what has been added to the journal is a log. -/
structure Context.Watched (log : List Event → Prop) (start : List Event) (ctx ctx' : Context) :
    Prop where
  unmarked_eq : ctx'.unmarked = ctx.unmarked
  logged : ∃ events, ctx'.session.journal.toList = start ++ events ∧ log events

namespace Context.Watched

variable {label : Grammar → Value} {log log' : List Event → Prop} {start : List Event}
variable {ctx ctx' : Context}

theorem cache_eq (h : Watched log start ctx ctx') : ctx'.cache = ctx.cache := by
  have heq : ctx'.unmarked.cache = ctx.unmarked.cache := by rw [h.unmarked_eq]
  exact heq

theorem settings_eq (h : Watched log start ctx ctx') :
    ctx'.session.settings = ctx.session.settings := by
  have heq : ctx'.unmarked.session.settings = ctx.unmarked.session.settings := by
    rw [h.unmarked_eq]
  exact heq

theorem mono (h : Watched log start ctx ctx') (hlog : ∀ events, log events → log' events) :
    Watched log' start ctx ctx' := by
  obtain ⟨heq, events, hjournal, hevents⟩ := h
  exact ⟨heq, events, hjournal, hlog events hevents⟩

/-- Nothing has been added yet. -/
theorem restart (h : Watched log start ctx ctx') :
    Watched (Settled label) ctx'.session.journal.toList ctx ctx' :=
  ⟨h.unmarked_eq, [], (List.append_nil _).symm, .nil⟩

/-- Changes that keep the journal apart keep the log. -/
theorem map (h : Watched log start ctx ctx') (f : Context → Context)
    (hunmarked : ∀ ctx, (f ctx).unmarked = f ctx.unmarked)
    (hjournal : ∀ ctx, (f ctx).session.journal = ctx.session.journal) :
    Watched log start (f ctx) (f ctx') := by
  constructor
  · rw [hunmarked, hunmarked, h.unmarked_eq]
  · rw [hjournal]
    exact h.logged

theorem call (h : Watched (Settled label) start ctx ctx') {event : Event}
    (hcall : event.isCall = true) :
    Watched (Settled label) start (ctx.mapSession fun s => s.write event)
      (ctx'.mapSession fun s => s.write event) := by
  have hcache := h.cache_eq
  obtain ⟨heq, events, hjournal, hevents⟩ := h
  constructor
  · have hsession : ctx'.session.unmarked = ctx.session.unmarked :=
      congrArg (fun ctx : Context => ctx.session) heq
    show Context.mk ctx'.cache (ctx'.session.write event).unmarked =
      ⟨ctx.cache, (ctx.session.write event).unmarked⟩
    rw [Session.unmarked_write_call _ hcall, Session.unmarked_write_call _ hcall, hsession, hcache]
  · refine ⟨events ++ [event], ?_, hevents.call hcall⟩
    show (ctx'.session.journal.push event).toList = _
    rw [Array.toList_push, hjournal, List.append_assoc]

theorem notes (notes : List Value) (h : Watched (Settled label) start ctx ctx') :
    Watched (Settled label) start (ctx.mapSession fun s => s.writeNotes notes)
      (ctx'.mapSession fun s => s.writeNotes notes) := by
  induction notes generalizing ctx ctx' with
  | nil => exact h
  | cons v notes ih => exact ih (h.call (show (Event.note v).isCall = true from rfl))

theorem tokenAt (h : Watched (Settled label) start ctx ctx') (position : Int) :
    (ctx'.tokenAt position).1 = (ctx.tokenAt position).1 ∧
      Watched (Settled label) start (ctx.tokenAt position).2 (ctx'.tokenAt position).2 := by
  have hcache := h.cache_eq
  obtain ⟨cache, session⟩ := ctx
  obtain ⟨cache', session'⟩ := ctx'
  obtain rfl : cache' = cache := hcache
  have hread : Watched (Settled label) start ⟨(cache'.tokenAt position).2, session⟩
      ⟨(cache'.tokenAt position).2, session'⟩ :=
    h.map (fun ctx => ⟨(cache'.tokenAt position).2, ctx.session⟩) (fun _ => rfl) fun _ => rfl
  refine ⟨rfl, ?_⟩
  simp only [Context.tokenAt]
  split
  · exact hread
  · exact hread.call (show (Event.pull _).isCall = true from rfl)

/-- A mark changes the watched context alone. -/
theorem unmarked_mark (h : Watched log start ctx ctx') {event : Event}
    (hmark : event.isCall = false) :
    (ctx'.mapSession fun s => s.write event).unmarked = ctx.unmarked := by
  have hsession : (ctx'.session.write event).unmarked = ctx'.session.unmarked :=
    Session.unmarked_write_mark _ hmark
  rw [← h.unmarked_eq]
  exact congrArg (Context.mk ctx'.cache) hsession

/-- The log of a part starts behind the mark of its entry. -/
theorem enter (label : Grammar → Value) (h : Watched log start ctx ctx') (id : Value)
    (position : Int) :
    Watched (Settled label) (ctx'.session.journal.toList ++ [.enter id position]) ctx
      (ctx'.mapSession fun s => s.write (.enter id position)) := by
  refine ⟨h.unmarked_mark rfl, [], ?_, .nil⟩
  show (ctx'.session.journal.push _).toList = _
  rw [Array.toList_push, List.append_nil]

/-- The mark of its end completes the log of a part. -/
theorem leave {id : Value} {position : Int}
    (h : Watched log (start ++ [.enter id position]) ctx ctx') {last : Event}
    (hlast : last.isCall = false) :
    Watched (fun events => ∃ inner, log inner ∧ events = Event.ofPart id position inner last) start
      ctx (ctx'.mapSession fun s => s.write last) := by
  obtain ⟨inner, hjournal, hinner⟩ := h.logged
  refine ⟨h.unmarked_mark hlast, Event.ofPart id position inner last, ?_, inner, hinner, rfl⟩
  show (ctx'.session.journal.push last).toList = _
  rw [Array.toList_push, hjournal]
  simp [Event.ofPart]

/-- A log goes on where another one has ended. -/
theorem append {events : List Event} (h : Watched log (start ++ events) ctx ctx')
    (hlog : ∀ added, log added → log' (events ++ added)) : Watched log' start ctx ctx' := by
  obtain ⟨added, hjournal, hadded⟩ := h.logged
  exact ⟨h.unmarked_eq, events ++ added, by rw [hjournal, List.append_assoc], hlog added hadded⟩

end Context.Watched

/-- The correspondence of a run and the watched run, on a journal that has reached `start`. -/
def Correspondence.watch (label : Grammar → Value) (start : List Event) : Correspondence :=
  .ofContexts (Context.Watched (Settled label) start)
    (fun fault => Context.Watched (BrokenOff label fault) start) False
    (fun h => by rw [h.settings_eq]) fun h _ => h.mono fun _ => .here

end PullParse
