import PullParse.Parser.Basic
import PullParse.Stack

/-!
# User data

A grammar keeps its own records in the user data of the state, which is read and
replaced without consuming a token. Since it belongs to the state, going back to
an earlier state undoes every replacement made since.
-/

namespace PullParse.Parser

/-- Matches with the user data. -/
def getUserData : Parser := fun s => return .matched s.userData s

/-- Replaces the user data by a value, which is also the value of the match. -/
def putUserData (value : Value) : Parser := fun s =>
  return .matched value { s with userData := value }

/-- Replaces the user data by its image, which is also the value of the match. -/
def modifyUserData (f : Value → Action Value) : Parser :=
  getUserData.bind fun data => ofAction (return putUserData (← f data))

/-- Puts a value in front of the stack; it is also the value of the match. -/
def pushUserData (value : Value) : Parser :=
  andThen (modifyUserData fun data => .ofExcept ((Stack.ofValue data).bind (Stack.push value)))
    (Parser.pure value)

/-- Takes the front off the stack and matches with it. -/
def popUserData : Parser := fun s => do
  let (front, rest) ← Run.ofExcept ((Stack.ofValue s.userData).bind Stack.pop)
  return .matched front { s with userData := rest }

end PullParse.Parser
