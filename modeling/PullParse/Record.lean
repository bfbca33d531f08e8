import PullParse.Settings

/-!
# Frozen records

Tokens, settings, states and matches are records whose fields are set once, when
they are made. Assigning to one afterwards is a fault. A record has places for
its fields alone, and every other name is refused with a fault of its own.
-/

namespace PullParse

/-- The kinds of record. -/
inductive Record where
  | token
  | settings
  | state
  | matched
  deriving DecidableEq

namespace Record

/-- The names of the fields of a record. -/
def fields : Record → List String
  | .token => ["cls", "value"]
  | .settings => Setting.all.map Setting.name
  | .state => ["cache", "position", "user_data"]
  | .matched => ["value", "state"]

/-- The fault of assigning to a name. -/
def assignmentFault (r : Record) (name : String) : Fault :=
  if r.fields.contains name then .frozenField name else .foreignField

end Record

end PullParse
