import PullParse.Workspace.Basic
import PullParse.Grammar.Meaning
import PullParse.Parser.Entry
import PullParse.Parser.Observed
import PullParse.Script.Build

/-!
# Registers

Steps on kept caches and states: opening a cache, reading a token of it, making
states and moving them on, and running a grammar on a state. Whatever such a
step pulls stays in the cache, also if it ends with a fault.
-/

namespace PullParse

/-- A state together with its cache. -/
structure Located where
  state : State
  cache : Cache

namespace Workspace

/-- A register that nothing was kept in is a fault. -/
def register (name : String) : Run Workspace Register := do
  let w ← Run.get
  match w.registers.lookup name with
  | some r => return r
  | none => Run.raise (.unknownName name)

def keep (name : String) (r : Register) : Run Workspace Unit :=
  Run.modify fun w => { w with registers := (name, r) :: w.registers }

/-- Adds a cache that nothing has been pulled into, and gives its number. -/
def addCache (producer : Producer) : Run Workspace Nat := do
  let w ← Run.get
  Run.modify fun w => { w with caches := w.caches.push (.fresh producer) }
  return w.caches.size

/-- The cache of a register. -/
def cacheOf (r : Register) : Run Workspace Cache := do
  let w ← Run.get
  match w.caches[r.cache]? with
  | some c => return c
  | none => Run.raise .outOfRange

/-- The state of a register; a mere cache stands for its start without user data. -/
def stateOf (r : Register) : State := r.state.getD ⟨0, .null⟩

/-- A state as it is now, on the cache of a register. -/
def locate (r : Register) (s : State) : Run Workspace Located := do
  let c ← cacheOf r
  return ⟨s, c⟩

/-- Runs on the cache of a register. -/
def onCache {α : Type} (r : Register) (x : Run Context α) : Run Workspace α := do
  let c ← cacheOf r
  x.within (fun w => ⟨c, w.session⟩) fun w ctx =>
    { w with
      session := ctx.session
      caches := w.caches.setIfInBounds r.cache ctx.cache }

def openCache (producer : Except Fault Producer) (name : String) : Run Workspace Cache := do
  let p ← Run.ofExcept producer
  let id ← addCache p
  let r : Register := ⟨id, none⟩
  keep name r
  cacheOf r

/-- Keeps the state at the first token of a producer, which is pulled at once. -/
def start (producer : Except Fault Producer) (userData : Value) (name : String) :
    Run Workspace Located := do
  let p ← Run.ofExcept producer
  let id ← addCache p
  let s ← onCache ⟨id, none⟩ (Parser.startState userData)
  let r : Register := ⟨id, some s⟩
  keep name r
  locate r s

/-- Keeps a state made by hand on the cache of another register. -/
def makeState (on : String) (position : Int) (userData : Value) (name : String) :
    Run Workspace Located := do
  let r ← register on
  let s : State := ⟨position, userData⟩
  keep name { r with state := some s }
  locate r s

/-- Reads a token of a cache, and gives the cache after it. -/
def tokenAt (on : String) (position : Int) : Run Workspace (Except Fault Token × Cache) := do
  let r ← register on
  let token ← onCache r ((Run.tokenAt position).attempt everyFault)
  let c ← cacheOf r
  return (token, c)

/-- The outcome of a grammar on a kept state, and that state after the run. -/
structure Trial where
  result : Except Fault Outcome
  before : Located
  after : Option Located

/-- Builds and runs a script on a kept state, and keeps the state that it matches with. -/
def run (rules : Rules) (script : Script) (on : String) (name : Option String) :
    Run Workspace Trial := do
  let r ← register on
  let s := stateOf r
  let inContext : Run Context Outcome := do
    let g ← Run.perform (script.build [])
    g.parser rules s
  let result ← onCache r (inContext.attempt everyFault)
  let before ← locate r s
  match result with
  | .ok (.matched _ s') =>
    match name with
    | some name => keep name { r with state := some s' }
    | none => pure ()
    let after ← locate r s'
    return ⟨result, before, some after⟩
  | _ => return ⟨result, before, none⟩

def current (on : String) : Run Workspace Token := do
  let r ← register on
  onCache r (Parser.current (stateOf r))

/-- Keeps the state one token further on. -/
def advance (on name : String) : Run Workspace Located := do
  let r ← register on
  let s ← onCache r (Parser.advance (stateOf r))
  keep name { r with state := some s }
  locate r s

def withUserData (on : String) (userData : Value) (name : String) : Run Workspace Located := do
  let r ← register on
  makeState on (stateOf r).position userData name

def stateText (on : String) : Run Workspace String := do
  let r ← register on
  return (stateOf r).display

/-- States are equal on the very same cache, at the same position, with equal user data. -/
def sameState (a b : String) : Run Workspace Bool := do
  let ra ← register a
  let rb ← register b
  let sa := stateOf ra
  let sb := stateOf rb
  return ra.cache == rb.cache && sa.position == sb.position && sa.userData.equal sb.userData

end Workspace

end PullParse
