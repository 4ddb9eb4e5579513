import Scriptlet.Token
import Scriptlet.Token.Describe
import Scriptlet.Scanner
import Scriptlet.Integer
import Scriptlet.Table
import Scriptlet.Text.Blank
import Scriptlet.Text.Joined
import Scriptlet.Text.Numeral
import Scriptlet.Text.Place
import Scriptlet.Text.Printable
import Scriptlet.Text.Quoted
import Scriptlet.Program.Basic
import Scriptlet.Program.Source
import Scriptlet.Program.Outline
import Scriptlet.Parser.Precedence
import Scriptlet.Parser.State
import Scriptlet.Parser.Grammar
import Scriptlet.Stack
import Scriptlet.Value
import Scriptlet.Value.Showing
import Scriptlet.RuntimeError
import Scriptlet.Operation
import Scriptlet.Scope
import Scriptlet.Evaluation
import Scriptlet.Settings
import Scriptlet.Host
import Scriptlet.Session
import Scriptlet.Highlight
import Scriptlet.Shell.Output
import Scriptlet.Shell.Command
import Scriptlet.Shell.Basic
import Scriptlet.Shell.Loop
import Scriptlet.CommandLine.Files
import Scriptlet.CommandLine.Basic
import Scriptlet.Main
import Scriptlet.Proofs.Scanner.Words
import Scriptlet.Proofs.Parser.Reading
import Scriptlet.Proofs.Parser.Derivation
import Scriptlet.Proofs.Parser.Soundness
import Scriptlet.Proofs.Parser.Nesting
import Scriptlet.Proofs.Parser.Productions
import Scriptlet.Proofs.Program.WellFormed
import Scriptlet.Proofs.Scanner.Spelling
import Scriptlet.Proofs.Program.Writing
import Scriptlet.Proofs.Parser.Completeness
import Scriptlet.Proofs.Evaluation.Preservation
import Scriptlet.Proofs.Evaluation.Frame
import Scriptlet.Proofs.Evaluation.Returns
import Scriptlet.Proofs.Evaluation.Standards
import Scriptlet.Proofs.Evaluation.Upholding
import Scriptlet.Proofs.Evaluation.Errors
import Scriptlet.Proofs.Evaluation.Ranges
import Scriptlet.Proofs.Evaluation.Escapes
import Scriptlet.Proofs.Scanner.Braces
import Scriptlet.Proofs.Parser.Brackets
import Scriptlet.Proofs.Parser.Closing
import Scriptlet.Proofs.Shell.Balance
import Scriptlet.Proofs.Shell.OpenBlocks
import Scriptlet.Proofs.Shell.Highlighting
import Scriptlet.Proofs.Scanner.Printing
import Scriptlet.Proofs.Parser.Layout
import Scriptlet.Proofs.Parser.RoundTrip
import Scriptlet.Proofs.Scanner.Positions
import Scriptlet.Proofs.Parser.Building
import Scriptlet.Proofs.Scanner.Joining
import Scriptlet.Proofs.Scanner.Lines
import Scriptlet.Proofs.Parser.Prefixes
import Scriptlet.Proofs.Shell.Splitting
import Scriptlet.Proofs.Shell.Sessions
import Scriptlet.Proofs.Shell.Segments
import Scriptlet.Proofs.Evaluation.ScopeTree
import Scriptlet.Proofs.Evaluation.Depth
import Scriptlet.Proofs.Evaluation.Comparison
import Scriptlet.Proofs.Program.Phrases
import Scriptlet.Proofs.Evaluation.Confinement
import Scriptlet.Proofs.Evaluation.Unmentioned
import Scriptlet.Proofs.Parser.Recovery
import Scriptlet.Proofs.Evaluation.Ordinary
import Scriptlet.Proofs.Evaluation.Equality
import Scriptlet.Proofs.Program.Chains
import Scriptlet.Proofs.Parser.Climbing
import Scriptlet.Proofs.Parser.Moving
import Scriptlet.Proofs.Parser.Pulling
import Scriptlet.Proofs.Parser.Reporting
import Scriptlet.Proofs.Scanner.Enclosure
import Scriptlet.Proofs.Parser.Enclosed
import Scriptlet.Proofs.Parser.Finishing
import Scriptlet.Proofs.Parser.Unlimited
import Scriptlet.Proofs.Evaluation.Arithmetic
import Scriptlet.Proofs.Program.Outlines
import Scriptlet.Proofs.Evaluation.Lookup
import Scriptlet.Proofs.Evaluation.Rules
import Scriptlet.Proofs.Evaluation.Parameters
import Scriptlet.Proofs.Evaluation.Mapping
import Scriptlet.Proofs.Evaluation.Doubling
import Scriptlet.Proofs.CommandLine.Reports
