import PullParse.Producer
import PullParse.Settings
import PullParse.Action
import PullParse.Parser.UserData

/-!
# Grammars

A grammar is a parser written down: a finite tree of combinators, whose
continuations pick a further grammar by the value that was matched, and which
may call rules of an environment by name. The constructors are the combinators
that stand on their own; the others are derived from them below.
-/

namespace PullParse

inductive Grammar where
  | satisfy (test : Value → Action Bool)
  | pure (value : Value)
  /-- Leaves notes, then goes on. -/
  | noting (notes : List Value) (g : Grammar)
  | raise (fault : Fault)
  | fail (reason : Value)
  | bind (g : Grammar) (f : Value → Grammar)
  | andThen (g h : Grammar)
  | getUserData
  | putUserData (value : Value)
  | popUserData
  | lookahead (g : Grammar)
  | notFollowedBy (g : Grammar)
  | either (g h : Grammar)
  | many (g : Grammar)
  | many1 (g : Grammar)
  | skipMany (g : Grammar)
  | skipMany1 (g : Grammar)
  | manyUntil (g terminator : Grammar)
  | sepBy1 (g sep : Grammar)
  | count (n : Int) (g : Grammar)
  | traced (id : Value) (g : Grammar)
  | activeSettings
  | changeSettings (changes : List (String × Value))
  | stateText
  | nested (g : Grammar) (producer : Producer) (options : Options)
      (overrides : List (String × Value))
  /-- Runs the rule `name` with arguments. -/
  | call (name : String) (args : List Value)

namespace Grammar

/-- The grammar that performs an action and goes on with its result. -/
def ofAction (x : Action Grammar) : Grammar :=
  .noting x.notes
    (match x.result with
    | .ok g => g
    | .error fault => .raise fault)

def anyToken : Grammar := .satisfy fun cls => return !Parser.isEndClass cls

def eof : Grammar := .satisfy fun cls => return Parser.isEndClass cls

def isWith (cls : Value) (test : Value → Value → Action Bool) : Grammar :=
  .satisfy fun current => test current cls

def is (cls : Value) : Grammar := isWith cls fun a b => return a.equal b

def fmap (f : Value → Action Value) (g : Grammar) : Grammar :=
  .bind g fun value => ofAction (return .pure (← f value))

def sequence (g h : Grammar) (rest : List Grammar) : Grammar :=
  rest.foldl .andThen (.andThen g h)

def modifyUserData (f : Value → Action Value) : Grammar :=
  .bind .getUserData fun data => ofAction (return .putUserData (← f data))

def pushUserData (value : Value) : Grammar :=
  .andThen (modifyUserData fun data => .ofExcept ((Stack.ofValue data).bind (Stack.push value)))
    (.pure value)

def opt (default : Value) (g : Grammar) : Grammar := .either g (.pure default)

def ignore (g : Grammar) : Grammar := .andThen g (.pure .null)

def maybe (g : Grammar) : Grammar := opt .null (ignore g)

def sepBy (g sep : Grammar) : Grammar := .either (.sepBy1 g sep) (.pure (.list []))

def between (opening closing g : Grammar) : Grammar :=
  .bind opening fun _ => .bind g fun value => .andThen closing (.pure value)

end Grammar

/-- A rule's grammar for each list of arguments. -/
abbrev Rules : Type := String → List Value → Grammar

end PullParse
