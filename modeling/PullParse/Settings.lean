import PullParse.Fault.Basic

/-!
# Settings

A run is governed by four settings: the user data it starts with, whether its
failure is raised or answered by a placeholder, that placeholder, and whether
repetitions guard against rounds that consume nothing. A caller names the
settings of a run by options and overrides, which are resolved field by field
before anything else happens.
-/

namespace PullParse

structure Settings where
  userData : Value
  propagate : Value
  errorValue : Value
  guard : Value

/-- The four settings by name. -/
inductive Setting where
  | userData
  | propagate
  | errorValue
  | guard
  deriving DecidableEq

namespace Setting

def name : Setting → String
  | .userData => "initial_user_data"
  | .propagate => "error_propagation"
  | .errorValue => "error_value"
  | .guard => "guard_empty_loops"

def all : List Setting := [.userData, .propagate, .errorValue, .guard]

def ofName? (name : String) : Option Setting := all.find? fun field => field.name == name

end Setting

namespace Settings

/-- No user data, failures raised, null as the placeholder, repetitions guarded. -/
def standard : Settings := ⟨.null, .bool true, .null, .bool true⟩

def get (s : Settings) : Setting → Value
  | .userData => s.userData
  | .propagate => s.propagate
  | .errorValue => s.errorValue
  | .guard => s.guard

def set (s : Settings) (field : Setting) (v : Value) : Settings :=
  match field with
  | .userData => { s with userData := v }
  | .propagate => { s with propagate := v }
  | .errorValue => { s with errorValue := v }
  | .guard => { s with guard := v }

def toValue (s : Settings) : Value := .settings s.userData s.propagate s.errorValue s.guard

/-- Sets one field by name and leaves unknown names alone. -/
def setNamed (s : Settings) (name : String) (v : Value) : Settings :=
  match Setting.ofName? name with
  | some field => s.set field v
  | none => s

/-- Replaces the named fields; every name has to be a setting. -/
def override (s : Settings) (changes : List (String × Value)) : Except Fault Settings :=
  match changes.find? fun change => (Setting.ofName? change.1).isNone with
  | some (name, _) => .error (.wrongField (Value.kind s.toValue) name)
  | none => .ok (changes.foldl (fun s change => s.setNamed change.1 change.2) s)

/-- The settings of a dictionary: its entries under the names of settings, and the standard for
the others. Every other key is ignored. -/
def ofEntries (entries : List (Value × Value)) : Settings :=
  entries.foldl (fun s entry =>
    match entry.1 with
    | .str name => s.setNamed name entry.2
    | _ => s) standard

/-- The settings of a value, which has to be a dictionary. -/
def ofMapping : Value → Except Fault Settings
  | .dict entries => .ok (ofEntries entries)
  | v => .error (.notMapping v.kind)

end Settings

/-- What a caller passes as the options of a run. -/
inductive Options where
  /-- The settings that are active when the run starts. -/
  | active
  | settings (s : Settings)
  | mapping (entries : List (Value × Value))
  | other (v : Value)

namespace Options

def ofValue : Value → Options
  | .null => .active
  | .settings userData propagate errorValue guard =>
    .settings ⟨userData, propagate, errorValue, guard⟩
  | .dict entries => .mapping entries
  | v => .other v

/-- The fault of options that are not settings. Only a record can be overridden at all, and a
token, the other kind of record, has other fields. -/
def misuse (v : Value) (overrides : List (String × Value)) : Fault :=
  match v, overrides with
  | v, [] => .notSettings v.kind
  | .token _ _, _ =>
    match overrides.find? fun change => change.1 != "cls" && change.1 != "value" with
    | some (name, _) => .wrongField v.kind name
    | none => .notSettings v.kind
  | _, _ => .notReplaceable

/-- The parameters of a parse that no override can be named after. -/
def parameters : List String := ["combinator", "producer", "options"]

/-- The settings that the options and overrides stand for: the override of a field if there is one,
else the field of the options, where a dictionary leaves the fields that it does not name at the
standard. -/
def combine (options : Options) (active : Settings) (overrides : List (String × Value)) :
    Except Fault Settings :=
  match options with
  | .active => active.override overrides
  | .settings s => s.override overrides
  | .mapping entries => (Settings.ofEntries entries).override overrides
  | .other v => .error (misuse v overrides)

/-- The settings of a run. An override named after a parameter is refused before anything else is
looked at. -/
def resolve (options : Options) (active : Settings) (overrides : List (String × Value)) :
    Except Fault Settings :=
  match overrides.find? fun change => parameters.contains change.1 with
  | some (name, _) => .error (.repeatedArgument "parse" name)
  | none => options.combine active overrides

end Options

end PullParse
