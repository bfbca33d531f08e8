import PullParse.Workspace.Basic
import PullParse.Grammar.Meaning
import PullParse.Script.Build
import PullParse.Arithmetic.Program
import PullParse.Nesting

/-!
# Whole parses

A step may be a parse from the first token of a producer to its result. It is
reported whatever fault it ends with, together with the number of times that it
called the producer.
-/

namespace PullParse

/-- How a parse ended, with the number of calls of its producer if there was one. -/
structure Report where
  result : Except Fault (Value × Bool)
  calls : Option Nat

namespace Workspace

/-- Runs a parse on a producer of its own. -/
def parseWith (producer : Producer) (x : Run Context (Value × Bool)) : Run Workspace Report := do
  let inContext : Run Context Report := do
    let result ← x.attempt everyFault
    let ctx ← Run.get
    return ⟨result, some ctx.cache.producer.calls⟩
  inContext.within (fun w => .opened producer w.session)
    fun w ctx => { w with session := ctx.session }

/-- Parses with a script. The producer comes first, then the grammar is built, then the options
are looked at. -/
def parse (rules : Rules) (script : Script) (producer : Except Fault Producer)
    (options : Except Fault Options) (overrides : List (String × Value)) :
    Run Workspace Report :=
  match producer with
  | .error fault => return ⟨.error fault, none⟩
  | .ok p => parseWith p do
    let g ← Run.perform (script.build [])
    let o ← Run.ofExcept options
    (g.parser rules).parse o overrides

/-- Evaluates arithmetic. The producer of its tokens is not observed. -/
def arithmetic (source : String) (propagate : Value) : Run Workspace Report :=
  parseWith (Arithmetic.producer source)
    (Arithmetic.program.parse .active [(Setting.propagate.name, propagate)]).unobserved

/-- Measures the nesting depth of brackets. The producer of its tokens is not observed. -/
def nesting (source : String) (userData : Value) : Run Workspace Report :=
  parseWith (Nesting.producer source)
    (Nesting.program.parse .active [(Setting.userData.name, userData)]).unobserved

/-- The answers of the first calls of a producer. -/
def produce (producer : Except Fault Producer) (n : Nat) :
    Run Workspace (List (Except Fault Value)) := do
  let p ← Run.ofExcept producer
  Run.modify fun w =>
    { w with
      session := (List.range n).foldl (fun s call => s.write (.pull (call + 1))) w.session }
  return p.answers n

end Workspace

end PullParse
