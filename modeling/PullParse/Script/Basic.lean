import PullParse.Script.Expr
import PullParse.Producer
import PullParse.Settings

/-!
# Scripts

A script is a grammar written as data, with expressions for its callbacks and
with variables. It may call named rules, which are scripts with parameters of
their own.
-/

namespace PullParse

inductive Script where
  | anyToken
  | eof
  | getUserData
  | popUserData
  | satisfy (test : Function)
  | is (cls : Expr)
  | isWith (cls : Expr) (test : Function)
  | lookahead (c : Script)
  | notFollowedBy (c : Script)
  | sequence (cs : List Script)
  | pure (e : Expr)
  | fail (reason : Expr)
  | putUserData (e : Expr)
  | pushUserData (e : Expr)
  | modifyUserData (f : Function)
  | fmap (f : Function) (c : Script)
  | either (c d : Script)
  | opt (default : Expr) (c : Script)
  | ignore (c : Script)
  | maybe (c : Script)
  | many (c : Script)
  | many1 (c : Script)
  | skipMany (c : Script)
  | skipMany1 (c : Script)
  | manyUntil (c terminator : Script)
  | sepBy (c sep : Script)
  | sepBy1 (c sep : Script)
  | between (opening closing c : Script)
  | count (n : Expr) (c : Script)
  /-- Binds the value that `c` matches to a variable, and goes on with `d`. -/
  | bind (c : Script) (name : String) (d : Script)
  | ite (condition : Expr) (c d : Script)
  | call (name : String) (args : List Expr)
  | traced (id : Value) (c : Script)
  | activeSettings
  | changeSettings (changes : List (String × Value))
  | stateText
  | nested (producer : Except Fault Producer) (c : Script) (options : Except Fault Options)
      (overrides : List (String × Value))

/-- A rule: its parameters and its body. -/
structure Rule where
  params : List String
  body : Script

end PullParse
