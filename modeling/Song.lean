import Song.Main
import Song.Transcript
import Song.Proofs.Evaluation.TailCalls
import Song.Proofs.Grammar.Completion
import Song.Proofs.Grammar.RoundTrip
import Song.Proofs.Grammar.Soundness
import Song.Proofs.Session.Discarding
import Song.Proofs.Session.Pending
import Song.Proofs.Token.Lexical
import Song.Proofs.Value
import Song.Proofs.Value.Installed
import Song.Proofs.Value.Reachable
import Song.Proofs.Session.LineByLine
import Song.Proofs.Token.LongestMatch
import Song.Proofs.Token.Cut
import Song.Proofs.Value.Clauses
import Song.Proofs.Unmentioned.Likeness
import Song.Proofs.Unmentioned.Operations
import Song.Proofs.Unmentioned.Evaluation
import Song.Proofs.Unmentioned.Blocks
import Song.Proofs.Unmentioned.Independence
import Song.Proofs.Expr.Pattern
import Song.Proofs.Grammar.WellFormed
import Song.Proofs.Session.FirstFailure
import Song.Proofs.Value.Destructuring
import Song.Proofs.Session.Conversation
import Song.Proofs.Evaluation.TailPosition
import Song.Proofs.Evaluation.Lambda
import Song.Proofs.Streams
import Song.Proofs.Value.Instance
import Song.Proofs.Evaluation.Events
import Song.Proofs.Session.Lines
import Song.Proofs.Session.Transcripts
import Song.Proofs.Value.Comparison
import Song.Proofs.Grammar.Spacing
import Song.Proofs.Grammar.LineEnds
import Song.Proofs.Grammar.Termination
import Song.Proofs.Grammar.Precedence
import Song.Proofs.Value.LocalFunctions
import Song.Proofs.Value.Declaring
import Song.Proofs.Value.Arithmetic
import Song.Proofs.Grammar.LineBreaks
import Song.Proofs.Grammar.Literals
import Song.Proofs.Grammar.Faults
import Song.Proofs.Evaluation.Traces
import Song.Proofs.Value.Power
import Song.Proofs.Value.Numerals
import Song.Proofs.Library.Strings
import Song.Proofs.Context.History
import Song.Proofs.Library.Operators
import Song.Proofs.Library.Divisors
import Song.Proofs.Library.Fibonacci
import Song.Proofs.Library.Slices
