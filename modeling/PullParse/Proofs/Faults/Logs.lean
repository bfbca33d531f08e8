import PullParse.Grammar.Basic
import PullParse.Parser.Observed

/-!
# Logs of parts

A watched run leaves a log: where each part of the grammar is entered, the calls
that are made, and how each part ends. As long as no fault is raised every part
that is entered ends with an outcome, inside the part that has entered it. After
a fault there is nothing left in the log but the ends of the parts that were
under way, from the innermost to the outermost, each with that fault.
-/

namespace PullParse

namespace Event

/-- A call of the producer or of a callback, and no mark. -/
def isCall : Event → Bool
  | .pull _ | .note _ => true
  | _ => false

/-- The end of a part that a fault has broken off. -/
def isRaised : Event → Bool
  | .raised _ _ => true
  | _ => false

/-- No part has been broken off. -/
def Quiet (events : List Event) : Prop := ∀ event ∈ events, event.isRaised = false

/-- The parts under way after an event, the innermost first. -/
def follow (under : List Value) : Event → List Value
  | .enter id _ => id :: under
  | .matched _ _ _ | .unmatched _ | .raised _ _ => under.tail
  | .pull _ | .note _ => under

/-- The parts under way after some events. -/
def underWay (under : List Value) (events : List Event) : List Value := events.foldl follow under

/-- A part in the log: its entry, what happens inside it, and its end. -/
def ofPart (id : Value) (position : Int) (inner : List Event) (last : Event) : List Event :=
  .enter id position :: (inner ++ [last])

theorem follow_call {event : Event} (h : event.isCall = true) (under : List Value) :
    follow under event = under := by
  cases event with
  | pull _ => rfl
  | note _ => rfl
  | enter _ _ => cases h
  | matched _ _ _ => cases h
  | unmatched _ => cases h
  | raised _ _ => cases h

theorem follow_outcome (id : Value) (outcome : Outcome) (under : List Value) :
    follow under (outcome.event id) = under.tail := by
  cases outcome <;> rfl

theorem isRaised_call {event : Event} (h : event.isCall = true) : event.isRaised = false := by
  cases event with
  | raised _ _ => cases h
  | _ => rfl

theorem isRaised_outcome (id : Value) (outcome : Outcome) :
    (outcome.event id).isRaised = false := by
  cases outcome <;> rfl

theorem underWay_append (under : List Value) (events events' : List Event) :
    underWay under (events ++ events') = underWay (underWay under events) events' :=
  List.foldl_append

theorem underWay_ofPart (under : List Value) (id : Value) (position : Int) (inner : List Event)
    (last : Event) :
    underWay under (ofPart id position inner last) =
      follow (underWay (id :: under) inner) last := by
  show underWay (id :: under) (inner ++ [last]) = _
  rw [underWay_append]
  rfl

end Event

open Event (ofPart underWay)

/-- After what happened before the fault, the log tells of nothing but the ends of the parts that
were under way then, from the innermost to the outermost, each by that fault. -/
structure Unwound (top : Value) (fault : Fault) (before log : List Event) : Prop where
  quiet : Event.Quiet before
  top_eq : (underWay [] before).getLast? = some top
  log_eq : log = before ++ (underWay [] before).map (Event.raised · fault)

/-- The log of parts that have all ended with an outcome. A part that fails has none. -/
inductive Settled (label : Grammar → Value) : List Event → Prop
  | nil : Settled label []
  | call {events : List Event} {event : Event} (h : Settled label events)
      (hcall : event.isCall = true) : Settled label (events ++ [event])
  | part {events inner : List Event} (g : Grammar) (position : Int) (outcome : Outcome)
      (h : Settled label events) (hinner : Settled label inner) (hg : ∀ reason, g ≠ .fail reason) :
      Settled label (events ++ ofPart (label g) position inner (outcome.event (label g)))

/-- The log of parts that a fault has broken off, which ends each of those under way. A part that
fails does so with the position at which it is entered. -/
inductive BrokenOff (label : Grammar → Value) (fault : Fault) : List Event → Prop
  | here {events : List Event} (h : Settled label events) : BrokenOff label fault events
  | inside {events inner : List Event} (g : Grammar) (position : Int) (h : Settled label events)
      (hinner : BrokenOff label fault inner)
      (hg : ∀ reason, g = .fail reason → fault = .parse reason (.int position)) :
      BrokenOff label fault (events ++ ofPart (label g) position inner (.raised (label g) fault))

variable {label : Grammar → Value} {fault : Fault} {events : List Event}

namespace Settled

theorem calls (h : Settled label events) {calls : List Event}
    (hcalls : ∀ event ∈ calls, event.isCall = true) : Settled label (events ++ calls) := by
  induction calls generalizing events with
  | nil => rwa [List.append_nil]
  | cons event calls ih =>
      rw [List.append_cons]
      exact ih (h.call (hcalls event List.mem_cons_self))
        fun event' hmem => hcalls event' (List.mem_cons_of_mem _ hmem)

/-- All that has been entered has ended. -/
theorem underWay_eq (h : Settled label events) (under : List Value) :
    underWay under events = under := by
  induction h generalizing under with
  | nil => rfl
  | call _ hcall ih =>
      rw [Event.underWay_append, ih]
      exact Event.follow_call hcall under
  | part g position outcome _ _ _ ih ihinner =>
      rw [Event.underWay_append, ih, Event.underWay_ofPart, ihinner, Event.follow_outcome]
      rfl

theorem quiet (h : Settled label events) : Event.Quiet events := by
  induction h with
  | nil => exact fun event hmem => absurd hmem List.not_mem_nil
  | call _ hcall ih =>
      intro event hmem
      rcases List.mem_append.mp hmem with hmem | hmem
      · exact ih event hmem
      · rw [List.mem_singleton.mp hmem]
        exact Event.isRaised_call hcall
  | part g position outcome _ _ _ ih ihinner =>
      intro event hmem
      simp only [ofPart, List.mem_append, List.mem_cons, List.not_mem_nil, or_false] at hmem
      rcases hmem with hmem | rfl | hmem | rfl
      · exact ih event hmem
      · rfl
      · exact ihinner event hmem
      · exact Event.isRaised_outcome _ outcome

/-- No part that fails has been entered. -/
theorem entered (h : Settled label events) {id : Value} {position : Int}
    (hmem : .enter id position ∈ events) :
    ∃ g, label g = id ∧ ∀ reason, g ≠ .fail reason := by
  induction h with
  | nil => exact absurd hmem List.not_mem_nil
  | @call events event _ hcall ih =>
      rcases List.mem_append.mp hmem with hmem | hmem
      · exact ih hmem
      · rw [← List.mem_singleton.mp hmem] at hcall
        cases hcall
  | part g position' outcome _ _ hg ih ihinner =>
      simp only [ofPart, List.mem_append, List.mem_cons, List.not_mem_nil, or_false] at hmem
      rcases hmem with hmem | henter | hmem | hlast
      · exact ih hmem
      · cases henter
        exact ⟨g, rfl, hg⟩
      · exact ihinner hmem
      · cases outcome <;> cases hlast

end Settled

namespace BrokenOff

/-- Behind what happened before the fault, the parts that were under way end with it. -/
theorem unwinds (h : BrokenOff label fault events) :
    ∃ before opened, events = before ++ opened.map (Event.raised · fault) ∧
      Event.Quiet before ∧ ∀ under, underWay under before = opened ++ under := by
  induction h with
  | @here events h => exact ⟨events, [], by simp, h.quiet, h.underWay_eq⟩
  | @inside events inner g position h _ _ ih =>
      obtain ⟨before, opened, rfl, hquiet, hopened⟩ := ih
      refine ⟨events ++ .enter (label g) position :: before, opened ++ [label g], ?_, ?_, ?_⟩
      · simp [ofPart]
      · intro event hmem
        rcases List.mem_append.mp hmem with hmem | hmem
        · exact h.quiet event hmem
        · rcases List.mem_cons.mp hmem with rfl | hmem
          · rfl
          · exact hquiet event hmem
      · intro under
        rw [Event.underWay_append, h.underWay_eq]
        show underWay (label g :: under) before = _
        rw [hopened]
        simp

/-- The log of a whole run that is broken off. -/
theorem unwound {inner : List Event} (h : BrokenOff label fault inner) (top : Value)
    (position : Int) :
    ∃ before, Unwound top fault before (ofPart top position inner (.raised top fault)) := by
  obtain ⟨before, opened, rfl, hquiet, hopened⟩ := h.unwinds
  have hunder : underWay [] (.enter top position :: before) = opened ++ [top] := hopened [top]
  refine ⟨.enter top position :: before, ?_, ?_, ?_⟩
  · intro event hmem
    rcases List.mem_cons.mp hmem with rfl | hmem
    · rfl
    · exact hquiet event hmem
  · rw [hunder, List.getLast?_concat]
  · rw [hunder]
    simp [ofPart]

/-- If a part that fails has been entered, then the fault is its own, with the position at which it
has been entered. -/
theorem entered (h : BrokenOff label fault events) {id : Value} {position : Int}
    (hmem : .enter id position ∈ events) :
    ∃ g, label g = id ∧ ∀ reason, g = .fail reason → fault = .parse reason (.int position) := by
  have hsettled : ∀ {events : List Event}, Settled label events → .enter id position ∈ events →
      ∃ g, label g = id ∧ ∀ reason, g = .fail reason → fault = .parse reason (.int position) := by
    intro events h hmem
    obtain ⟨g, hid, hg⟩ := h.entered hmem
    exact ⟨g, hid, fun reason heq => absurd heq (hg reason)⟩
  induction h with
  | here h => exact hsettled h hmem
  | inside g position' h _ hg ih =>
      simp only [ofPart, List.mem_append, List.mem_cons, List.not_mem_nil, or_false] at hmem
      rcases hmem with hmem | henter | hmem | hlast
      · exact hsettled h hmem
      · cases henter
        exact ⟨g, rfl, hg⟩
      · exact ih hmem
      · cases hlast

end BrokenOff

end PullParse
