import PullParse.Parser.Basic

/-!
# Workspaces

A workspace is where single steps are taken: whole parses, but also reading one
token, running a grammar on a kept state, or opening and leaving scopes of
settings and profiles in any order. It keeps token caches and states in named
registers, and under the name of each scope what its leaving restores. States
that come from the same start share their cache.
-/

namespace PullParse

/-- The version of the library. -/
def version : String := "0.1.0"

/-- A register holds a cache, or a state on it. -/
structure Register where
  cache : Nat
  state : Option State

/-- What leaving a scope makes active again. -/
inductive Scope where
  | settings (before : Settings)
  | profile (before : Option Nat)

structure Workspace where
  session : Session
  caches : Array Cache
  registers : List (String × Register)
  scopes : List (String × Scope)
  /-- The accumulators that belong to the names of profiles. -/
  profiles : List (String × Nat)

namespace Workspace

def fresh : Workspace := ⟨.fresh, #[], [], [], []⟩

/-- The budget of a step, larger than any that a finite input needs. -/
def budget : Nat := 1000000000000000000

/-- Takes a step. -/
def take {α : Type} (x : Run Workspace α) (w : Workspace) : Ending Workspace α :=
  x.run budget w

/-- Empties the log and the journal, and gives what was in them. -/
def drain (w : Workspace) : Array LogRecord × Array Event × Workspace :=
  (w.session.log, w.session.journal,
    { w with session := { w.session with log := #[], journal := #[] } })

/-- Any fault ends up in the report of a step. -/
def everyFault : Fault → Bool := fun _ => true

end Workspace

end PullParse
