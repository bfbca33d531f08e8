import PullParse.Run.Basic
import PullParse.Action
import PullParse.Cache
import PullParse.Session

/-!
# Runs over tokens

The context of a run is the token cache that it reads and the session around
it. A run pulls tokens, performs actions, writes into the journal and the log,
and may change the settings and the profile, which scopes put back.
-/

namespace PullParse

/-- What a run works on. -/
structure Context where
  cache : Cache
  session : Session

namespace Context

/-- A context about to read a producer from its start. -/
def opened (producer : Producer) (session : Session) : Context := ⟨.fresh producer, session⟩

/-- Reads a token, and puts the call of the producer into the journal if one was made. -/
def tokenAt (position : Int) : Context → Except Fault Token × Context
  | ⟨cache, session⟩ =>
    let calls := cache.producer.calls
    let (answer, cache') := cache.tokenAt position
    let calls' := cache'.producer.calls
    (answer, ⟨cache', if calls' = calls then session else session.write (.pull calls')⟩)

def mapSession (f : Session → Session) : Context → Context
  | ⟨cache, session⟩ => ⟨cache, f session⟩

end Context

namespace Run

variable {α : Type}

def tokenAt (position : Int) : Run Context Token :=
  ⟨fun _ ctx =>
    let (answer, ctx') := ctx.tokenAt position
    .ofExcept answer ctx'⟩

/-- Performs an action: its notes go into the journal, then its result is the run's. -/
def perform (x : Action α) : Run Context α :=
  ⟨fun _ ctx => .ofExcept x.result (ctx.mapSession fun s => s.writeNotes x.notes)⟩

def write (event : Event) : Run Context Unit :=
  modify fun ctx => ctx.mapSession fun s => s.write event

def log (record : LogRecord) : Run Context Unit :=
  modify fun ctx => ctx.mapSession fun s => s.logged record

/-- Counts the run in the active accumulator. -/
def record (success : Bool) : Run Context Unit :=
  modify fun ctx =>
    let pulls := ctx.cache.pulls
    ctx.mapSession fun s => s.recorded pulls success

def settings : Run Context Settings := ⟨fun _ ctx => .done ctx.session.settings ctx⟩

def setSettings (new : Settings) : Run Context Unit :=
  modify fun ctx => ctx.mapSession fun s => { s with settings := new }

/-- Runs under other settings. The settings active before are active again afterwards. -/
def withSettings (new : Settings) (x : Run Context α) : Run Context α := do
  let old ← settings
  setSettings new
  x.restoring fun ctx => ctx.mapSession fun s => { s with settings := old }

/-- Runs without leaving anything in the journal. -/
def unobserved (x : Run Context α) : Run Context α := do
  let ctx ← get
  let old := ctx.session.journal
  x.restoring fun ctx => ctx.mapSession fun s => { s with journal := old }

end Run

end PullParse
