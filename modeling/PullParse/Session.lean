import PullParse.Fault.Message
import PullParse.Settings
import PullParse.Profile

/-!
# Sessions

What outlives a single run: the active settings, the profiler, the log of runs,
and the journal of everything that a run lets an observer see, which is the
calls of its producers, the notes of its callbacks and the marks of traced
parsers.
-/

namespace PullParse

inductive Event where
  /-- The producer is called for the `call`-th time. -/
  | pull (call : Nat)
  | note (v : Value)
  | enter (id : Value) (position : Int)
  | matched (id : Value) (position : Int) (value : Value)
  | unmatched (id : Value)
  | raised (id : Value) (fault : Fault)

/-- What a run writes into the log: its start, and its end unless a fault other than a hard one
broke it off. -/
inductive LogRecord where
  | started (userData : Value)
  | aborted (fault : Fault)
  | failed
  | finished (position : Int) (pulls : Nat)

namespace LogRecord

def message : LogRecord → String
  | .started userData => "parse started: user_data=" ++ userData.display
  | .aborted fault => "parse aborted by hard failure: " ++ fault.message
  | .failed => "parse failed: no match at top level"
  | .finished position pulls =>
    "parse finished: position=" ++ toString position ++ " tokens_pulled=" ++ toString pulls

/-- The root of the names of all loggers. -/
def rootName : String := "monadparse"

/-- The name of the logger for a topic, which stands below the root. -/
def loggerName (topic : String) : String :=
  if topic == rootName || topic.startsWith (rootName ++ ".") then topic
  else rootName ++ "." ++ topic

/-- The logger that runs write to. -/
def logger : String := loggerName "engine"

def level : String := "DEBUG"

end LogRecord

structure Session where
  settings : Settings
  profiler : Profiler
  log : Array LogRecord
  journal : Array Event

namespace Session

/-- The standard settings, no active profile, nothing logged. -/
def fresh : Session := ⟨.standard, .empty, #[], #[]⟩

def write (s : Session) (event : Event) : Session :=
  { s with journal := s.journal.push event }

def writeNotes (s : Session) (notes : List Value) : Session :=
  notes.foldl (fun s v => s.write (.note v)) s

def logged (s : Session) (record : LogRecord) : Session :=
  { s with log := s.log.push record }

def recorded (s : Session) (pulls : Nat) (success : Bool) : Session :=
  { s with profiler := s.profiler.record pulls success }

end Session

end PullParse
