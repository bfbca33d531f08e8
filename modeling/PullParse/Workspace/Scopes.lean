import PullParse.Workspace.Basic

/-!
# Scopes

Settings and profiles are changed for good, or within a scope. A scope has a
name; leaving it makes active again what was active when it was entered, in
whatever order scopes are left.
-/

namespace PullParse

namespace Workspace

def onSession {α : Type} (f : Session → α × Session) : Run Workspace α := do
  let w ← Run.get
  let (a, session) := f w.session
  Run.modify fun w => { w with session := session }
  return a

def activeSettings : Run Workspace Settings := do
  let w ← Run.get
  return w.session.settings

def setSettings (new : Settings) : Run Workspace Settings :=
  onSession fun s => (new, { s with settings := new })

/-- Makes the standard settings with the given fields replaced active. -/
def setFields (fields : List (String × Value)) : Run Workspace Settings := do
  let new ← Run.ofExcept (Settings.standard.override fields)
  setSettings new

def addScope (name : String) (scope : Scope) : Run Workspace Unit :=
  Run.modify fun w => { w with scopes := (name, scope) :: w.scopes }

/-- Opens a scope of settings. -/
def enterSettings (name : String) (fields : List (String × Value)) : Run Workspace Settings := do
  let old ← activeSettings
  let new ← setFields fields
  addScope name (.settings old)
  return new

/-- The active accumulator, and the one that belongs to a name. -/
def profile (name : String) : Run Workspace (Option Accumulator × Option Accumulator) := do
  let w ← Run.get
  let profiler := w.session.profiler
  return (profiler.activeAccumulator?, (w.profiles.lookup name).bind profiler.get?)

/-- Opens a profile with an accumulator of its own. -/
def enterProfile (name : String) :
    Run Workspace (Option Accumulator × Option Accumulator) := do
  let w ← Run.get
  let old := w.session.profiler.active
  let (id, profiler) := w.session.profiler.opened
  Run.modify fun w =>
    { w with
      session := { w.session with profiler := profiler }
      profiles := (name, id) :: w.profiles }
  addScope name (.profile old)
  profile name

/-- Leaves a scope, once, and gives the settings and the accumulator that are active then. -/
def leave (name : String) : Run Workspace (Settings × Option Accumulator) := do
  let w ← Run.get
  Run.modify fun w => { w with scopes := w.scopes.filter fun scope => scope.1 != name }
  match w.scopes.lookup name with
  | none => pure ()
  | some (.settings old) =>
    let _ ← setSettings old
  | some (.profile old) =>
    onSession fun s => ((), { s with profiler := s.profiler.restored old })
  let w ← Run.get
  return (w.session.settings, w.session.profiler.activeAccumulator?)

/-- The accumulator of a name; one that is never active is added if it has none. -/
def accumulatorOf (name : String) : Run Workspace Nat := do
  let w ← Run.get
  match w.profiles.lookup name with
  | some id => return id
  | none =>
    let id ← onSession fun s =>
      let (id, profiler) := s.profiler.add
      (id, { s with profiler := profiler })
    Run.modify fun w => { w with profiles := (name, id) :: w.profiles }
    return id

/-- Counts a run by hand. -/
def record (name : String) (tokens : Int) (success : Value) :
    Run Workspace (Option Accumulator) := do
  let id ← accumulatorOf name
  onSession fun s => ((), { s with profiler := s.profiler.recordIn id tokens success.truth })
  let w ← Run.get
  return w.session.profiler.get? id

end Workspace

end PullParse
