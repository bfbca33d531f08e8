/-!
# Profiles

An accumulator counts the runs recorded in it, how they ended and how many
tokens they pulled. A profiler keeps every accumulator that was ever opened;
at most one of them is active, and recorded runs go to that one.
-/

namespace PullParse

structure Accumulator where
  parseCalls : Nat
  successes : Nat
  failures : Nat
  tokensPulled : Int

namespace Accumulator

def empty : Accumulator := ⟨0, 0, 0, 0⟩

/-- Counts one run. -/
def record (a : Accumulator) (tokens : Int) (success : Bool) : Accumulator where
  parseCalls := a.parseCalls + 1
  successes := if success then a.successes + 1 else a.successes
  failures := if success then a.failures else a.failures + 1
  tokensPulled := a.tokensPulled + tokens

end Accumulator

structure Profiler where
  accumulators : Array Accumulator
  active : Option Nat

namespace Profiler

def empty : Profiler := ⟨#[], none⟩

/-- Adds an accumulator without making it active; also gives its number. -/
def add (p : Profiler) : Nat × Profiler :=
  (p.accumulators.size, { p with accumulators := p.accumulators.push .empty })

/-- Opens a new accumulator and makes it active; also gives its number. -/
def opened (p : Profiler) : Nat × Profiler :=
  let (id, p') := p.add
  (id, { p' with active := some id })

/-- Makes the accumulator active again that was active before. -/
def restored (p : Profiler) (before : Option Nat) : Profiler := { p with active := before }

def get? (p : Profiler) (id : Nat) : Option Accumulator := p.accumulators[id]?

/-- Counts a run in one accumulator. -/
def recordIn (p : Profiler) (id : Nat) (tokens : Int) (success : Bool) : Profiler :=
  { p with accumulators := p.accumulators.modify id fun a => a.record tokens success }

/-- Counts a run in the active accumulator, if there is one. -/
def record (p : Profiler) (tokens : Int) (success : Bool) : Profiler :=
  match p.active with
  | some id => p.recordIn id tokens success
  | none => p

def activeAccumulator? (p : Profiler) : Option Accumulator := p.active.bind p.get?

end Profiler

end PullParse
