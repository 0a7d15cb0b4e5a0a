import Tama.Host.Stub
import Tama.Main
import Tama.ParseError.Written
import Tama.Stack
import Tama.Proofs.Grammar
import Tama.Proofs.Grammar.Lexing
import Tama.Proofs.Grammar.Reading
import Tama.Proofs.Grammar.Sound
import Tama.Proofs.Grammar.Complete
import Tama.Proofs.Grammar.Nesting
import Tama.Proofs.Grammar.Acceptance
import Tama.Proofs.Grammar.Joined
import Tama.Proofs.Grammar.Expansion
import Tama.Proofs.Text.Position
import Tama.Proofs.Token.Scan
import Tama.Proofs.Grammar.Tokens
import Tama.Proofs.Grammar.Agreement
import Tama.Proofs.Ast.Occurrence
import Tama.Proofs.Eval.Observed
import Tama.Proofs.Eval.Propagation
import Tama.Proofs.Eval.Atomic
import Tama.Proofs.Eval.Frame
import Tama.Proofs.Eval.Noninterference
import Tama.Proofs.Analysis
import Tama.Proofs.Analysis.Room
import Tama.Proofs.Session
import Tama.Proofs.Session.Calls
import Tama.Proofs.Session.Evaluation
import Tama.Proofs.Session.Safety
import Tama.Proofs.Session.Script
import Tama.Proofs.Grammar.Local
import Tama.Proofs.Grammar.Closed
import Tama.Proofs.Grammar.Location
import Tama.Proofs.Session.Tracing
import Tama.Proofs.Session.Transparency
import Tama.Proofs.Grammar.Listing
import Tama.Proofs.Session.Reporting
import Tama.Proofs.Session.Interactive
import Tama.Proofs.Eval.Printing
import Tama.Proofs.Cli
import Tama.Proofs.Ast.Renaming
import Tama.Proofs.Env.Renaming
import Tama.Proofs.Eval.Renaming
import Tama.Proofs.Tree.Subtrees
import Tama.Proofs.Analysis.Rejection
import Tama.Proofs.Tree.Search
import Tama.Proofs.Ast.Origin
import Tama.Proofs.Analysis.Decoding
import Tama.Proofs.Token.Munch
import Tama.Proofs.Token.Pass
import Tama.Proofs.Token.Tiling
import Tama.Proofs.Grammar.Lockstep
import Tama.Proofs.Grammar.Sequence
import Tama.Proofs.Grammar.Parting
import Tama.Proofs.Grammar.Entry
import Tama.Proofs.Grammar.Semicolon
import Tama.Proofs.Eval.Congruence
import Tama.Proofs.Eval.Arity
import Tama.Proofs.Eval.Regrouping
import Tama.Proofs.Eval.Standard
import Tama.Proofs.Value.ReadBack
import Tama.Proofs.Grammar.Progress
import Tama.Proofs.Text.Words
import Tama.Proofs.Grammar.Spelling
import Tama.Proofs.Tree.Layout
import Tama.Proofs.Grammar.Failure
import Tama.Proofs.ParseError
import Tama.Proofs.ParseError.Caret
import Tama.Proofs.ParseError.Quotation
import Tama.Proofs.ParseError.Hint
import Tama.Proofs.Token.Braces
import Tama.Proofs.Session.Reading
import Tama.Proofs.Env.Operations
