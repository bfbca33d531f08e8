import PullParse.Script.Basic
import PullParse.Grammar.Basic

/-!
# Building grammars from scripts

Building a script evaluates its expressions from left to right, under the
variables bound around it. Functions and the continuations of matched values are
evaluated only when the grammar runs, and a parse inside a parse makes its
producer, its grammar and its options, in this order, each time it runs.
-/

namespace PullParse

namespace Script

/-- A function of the token class as a test. -/
def classTest (bindings : Bindings) (f : Function) (cls : Value) : Action Bool :=
  return (← f.apply bindings [cls]).truth

/-- A function of the token class and an expected class as a test. -/
def relationTest (bindings : Bindings) (f : Function) (current cls : Value) : Action Bool :=
  return (← f.apply bindings [current, cls]).truth

/-- A sequence of built parts; fewer than two make none. -/
def sequenceOf : List Grammar → Except Fault Grammar
  | [] => .error (.missingParsers 0)
  | [_] => .error (.missingParsers 1)
  | g :: h :: rest => .ok (.sequence g h rest)

/-- A count by a value. One that is not a number is a fault when the grammar runs. -/
def countOf (n : Value) (g : Grammar) : Grammar :=
  match n.asCount? with
  | some k => .count k g
  | none => .raise (.notInteger n.kind)

mutual

def build (bindings : Bindings) : Script → Action Grammar
  | .anyToken => return .anyToken
  | .eof => return .eof
  | .getUserData => return .getUserData
  | .popUserData => return .popUserData
  | .satisfy test => return .satisfy (classTest bindings test)
  | .is cls => return .is (← cls.eval bindings)
  | .isWith cls test => return .isWith (← cls.eval bindings) (relationTest bindings test)
  | .lookahead c => return .lookahead (← build bindings c)
  | .notFollowedBy c => return .notFollowedBy (← build bindings c)
  | .sequence cs => do .ofExcept (sequenceOf (← buildAll bindings cs))
  | .pure e => return .pure (← e.eval bindings)
  | .fail reason => return .fail (← reason.eval bindings)
  | .putUserData e => return .putUserData (← e.eval bindings)
  | .pushUserData e => return .pushUserData (← e.eval bindings)
  | .modifyUserData f => return .modifyUserData fun data => f.apply bindings [data]
  | .fmap f c => return .fmap (fun value => f.apply bindings [value]) (← build bindings c)
  | .either c d => do
    let g ← build bindings c
    let h ← build bindings d
    return .either g h
  | .opt default c => do
    let value ← default.eval bindings
    let g ← build bindings c
    return .opt value g
  | .ignore c => return .ignore (← build bindings c)
  | .maybe c => return .maybe (← build bindings c)
  | .many c => return .many (← build bindings c)
  | .many1 c => return .many1 (← build bindings c)
  | .skipMany c => return .skipMany (← build bindings c)
  | .skipMany1 c => return .skipMany1 (← build bindings c)
  | .manyUntil c terminator => do
    let g ← build bindings c
    let h ← build bindings terminator
    return .manyUntil g h
  | .sepBy c sep => do
    let g ← build bindings c
    let h ← build bindings sep
    return .sepBy g h
  | .sepBy1 c sep => do
    let g ← build bindings c
    let h ← build bindings sep
    return .sepBy1 g h
  | .between opening closing c => do
    let g ← build bindings opening
    let h ← build bindings closing
    let k ← build bindings c
    return .between g h k
  | .count n c => do
    let value ← n.eval bindings
    let g ← build bindings c
    return countOf value g
  | .bind c name d => do
    let g ← build bindings c
    return .bind g fun value => .ofAction (build ((name, value) :: bindings) d)
  | .ite condition c d => do
    if (← condition.eval bindings).truth then build bindings c else build bindings d
  | .call name args => return .call name (← Expr.evalAll bindings args)
  | .traced id c => return .traced id (← build bindings c)
  | .activeSettings => return .activeSettings
  | .changeSettings changes => return .changeSettings changes
  | .stateText => return .stateText
  | .nested producer c options overrides =>
    return .ofAction do
      let p ← .ofExcept producer
      let g ← build bindings c
      let o ← .ofExcept options
      return .nested g p o overrides

def buildAll (bindings : Bindings) : List Script → Action (List Grammar)
  | [] => return []
  | c :: cs => do
    let g ← build bindings c
    let gs ← buildAll bindings cs
    return g :: gs

end

/-- The rules of a table. A rule is built each time it runs, with its parameters alone bound. -/
def rulesOf (table : List (String × Rule)) : Rules := fun name args =>
  match table.lookup name with
  | some rule => .ofAction (build (rule.params.zip args).reverse rule.body)
  | none => .raise (.unknownName name)

end Script

end PullParse
