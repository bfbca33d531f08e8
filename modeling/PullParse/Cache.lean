import PullParse.Producer

/-!
# Token caches

A cache holds the tokens that a producer has delivered so far and asks for one
more only when it is read at its end. Tokens are appended and never replaced, so
going back costs nothing. An end token terminates the cache: it is read at every
later position, and the producer is left alone.
-/

namespace PullParse

structure Cache where
  tokens : Array Token
  /-- The number of tokens taken from the producer. -/
  pulls : Nat
  producer : Producer

namespace Cache

/-- The cache of a producer from which nothing has been pulled. -/
def fresh (producer : Producer) : Cache := ⟨#[], 0, producer⟩

def length (c : Cache) : Nat := c.tokens.size

/-- The end token, once it is cached. -/
def endToken? (c : Cache) : Option Token := c.tokens.back?.filter Token.isEof

/-- Whether the end token is cached. -/
def terminated (c : Cache) : Bool := c.endToken?.isSome

/-- Pulls one token and appends it. An answer that is a fault or not a pair leaves the tokens as
they are. -/
def pull : Cache → Except Fault Token × Cache
  | ⟨tokens, pulls, producer⟩ =>
    let (answer, producer') := producer.next
    match answer.bind Token.ofPair with
    | .error fault => (.error fault, ⟨tokens, pulls, producer'⟩)
    | .ok token => (.ok token, ⟨tokens.push token, pulls + 1, producer'⟩)

/-- Reads a cached token; a negative position counts from the end. -/
def cached (c : Cache) (position : Int) : Except Fault Token :=
  let index := if position < 0 then position + c.length else position
  if position < -Elements.maxWord - 1 then .error .indexTooLarge
  else if index < 0 then .error .outOfRange
  else
    match c.tokens[index.toNat]? with
    | some token => .ok token
    | none => .error .outOfRange

/-- The token at a position, pulled if the position is the end of the cache. -/
def tokenAt (c : Cache) (position : Int) : Except Fault Token × Cache :=
  if position < c.length then (c.cached position, c)
  else
    match c.endToken? with
    | some token => (.ok token, c)
    | none =>
      if position = c.length then c.pull else (.error (.aheadOfCache position c.length), c)

end Cache

end PullParse
