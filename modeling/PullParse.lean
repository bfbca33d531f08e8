import PullParse.Workspace.Parses
import PullParse.Workspace.Registers
import PullParse.Workspace.Scopes
import PullParse.Record
import PullParse.Proofs.Cache.Reads
import PullParse.Proofs.Cache.Streams
import PullParse.Proofs.Reading.Basic
import PullParse.Proofs.Reading.Grammar
import PullParse.Proofs.Reading.Runs
import PullParse.Proofs.Reading.Combinators
import PullParse.Proofs.Reading.Repetition
import PullParse.Proofs.Reading.Transparency
import PullParse.Proofs.Arithmetic.Sentences
import PullParse.Proofs.Reading.Results
import PullParse.Proofs.Arithmetic.Grammar
import PullParse.Proofs.Arithmetic.Readings
import PullParse.Proofs.Arithmetic.Completeness
import PullParse.Proofs.Arithmetic.Soundness
import PullParse.Proofs.Arithmetic.Evaluation
import PullParse.Proofs.Grammar.Derived
import PullParse.Proofs.Nesting.Words
import PullParse.Proofs.Nesting.Grammar
import PullParse.Proofs.Nesting.Readings
import PullParse.Proofs.Nesting.Depth
import PullParse.Proofs.Position.Basic
import PullParse.Proofs.Position.Combinators
import PullParse.Proofs.Grammar.Instrumented
import PullParse.Proofs.Position.Range
import PullParse.Proofs.Entry.Conclusion
import PullParse.Proofs.Laziness.Pulls
import PullParse.Proofs.Progress.Consuming
import PullParse.Proofs.Cache.Finite
import PullParse.Proofs.Cache.Histories
import PullParse.Proofs.Guard.Lockstep
import PullParse.Proofs.Guard.Combinators
import PullParse.Proofs.Guard.Repetition
import PullParse.Proofs.Guard.Grammar
import PullParse.Proofs.Guard.Conservative
import PullParse.Proofs.Progress.Rounds
import PullParse.Proofs.Progress.Termination
import PullParse.Proofs.Progress.Criterion
import PullParse.Proofs.Laziness.Factoring
import PullParse.Proofs.Correspondence.Basic
import PullParse.Proofs.Correspondence.Combinators
import PullParse.Proofs.Correspondence.Grammar
import PullParse.Proofs.Correspondence.Leaves
import PullParse.Proofs.Faults.Logs
import PullParse.Proofs.Faults.Watch
import PullParse.Proofs.Faults.Nodes
import PullParse.Proofs.Faults.Unwinding
import PullParse.Proofs.Entry.Answers
import PullParse.Proofs.Repetition.Loops
import PullParse.Proofs.Entry.Scoping
import PullParse.Proofs.Window.Basic
import PullParse.Proofs.Window.Combinators
import PullParse.Proofs.Window.Locality
import PullParse.Proofs.Correspondence.Invariants
import PullParse.Proofs.Accounts.Books
import PullParse.Proofs.Accounts.Sessions
import PullParse.Proofs.Entry.HardFaults
import PullParse.Proofs.Repetition.Family
import PullParse.Proofs.Position.Onward
import PullParse.Proofs.Repetition.Chains
import PullParse.Proofs.Repetition.Until
import PullParse.Proofs.Accounts.Calls
import PullParse.Proofs.Repetition.Tokens
import PullParse.Proofs.Repetition.Counts
import PullParse.Proofs.Chaining.Bracketing
import PullParse.Proofs.Stack.Words
import PullParse.Proofs.UserData.Survival
import PullParse.Proofs.Producer.Adapters
import PullParse.Proofs.Entry.Installed
import PullParse.Proofs.Entry.Resolution
