import Munch.Text.Blank
import Munch.Text.Quoted
import Munch.Unicode.Script
import Munch.Pattern.Fault
import Munch.Pattern.Node
import Munch.Pattern.Assembly
import Munch.Pattern.Reading
import Munch.Pattern.Parser
import Munch.Contest
import Munch.Bytes.Matcher
import Munch.Error
import Munch.Text.Template
import Munch.Definitions
import Munch.States
import Munch.Tokens
import Munch.Options
import Munch.Lexer.Basic
import Munch.Session.Run
import Munch.Lexeme
import Munch.Console.Folder
import Munch.Main
import Munch.Proofs.Window
import Munch.Proofs.Contest
import Munch.Proofs.Run
import Munch.Proofs.Frame
import Munch.Proofs.Searching
import Munch.Proofs.Steps
import Munch.Proofs.Freshness
import Munch.Proofs.Tiling
import Munch.Proofs.Stages
import Munch.Proofs.Tokenizing
import Munch.Proofs.Bytes.Reading
import Munch.Proofs.Modes
import Munch.Proofs.Attaching
import Munch.Proofs.Phases
import Munch.Proofs.Pulling
import Munch.Proofs.ScanLikeness
import Munch.Proofs.BreakingOff
import Munch.Proofs.Truncation
import Munch.Proofs.Delivery
import Munch.Proofs.Reentry
import Munch.Proofs.Specification
import Munch.Proofs.Verdict
import Munch.Proofs.Registration
import Munch.Proofs.RuleFile.Loading
import Munch.Proofs.Program.Path
import Munch.Proofs.Declared
import Munch.Proofs.Covering
import Munch.Proofs.Alignment
import Munch.Proofs.Literal
import Munch.Proofs.Quoted
import Munch.Proofs.Substituting
import Munch.Proofs.RuleFile.Splitting
import Munch.Proofs.Finder
import Munch.Proofs.Progress
import Munch.Proofs.Cancelling
import Munch.Proofs.RuleFile.Following
import Munch.Proofs.Opening
import Munch.Proofs.WindowOn
import Munch.Proofs.Lookahead
import Munch.Proofs.Pattern.Bracketed
import Munch.Proofs.ClassScan
import Munch.Proofs.ClassEnd
