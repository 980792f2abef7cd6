import XPathSyntax.Grammar
import XPathSyntax.Main
import XPathSyntax.Token.Spelling
import XPathSyntax.Tree.Equality
import XPathSyntax.Tree.Release
import XPathSyntax.Tree.Tokens
import XPathSyntax.Tree.WellFormed
import XPathSyntax.Proofs.Grammar.Acceptance
import XPathSyntax.Proofs.Grammar.Charge
import XPathSyntax.Proofs.Grammar.ViablePrefix
import XPathSyntax.Proofs.Tree.Denoted
import XPathSyntax.Proofs.RecencyMap.Entries
import XPathSyntax.Proofs.RecencyMap.History
import XPathSyntax.Proofs.TreeCache.Transparent
import XPathSyntax.Proofs.TreeCache.Steps
import XPathSyntax.Proofs.Grammar.Conservation
import XPathSyntax.Proofs.Source.Division
import XPathSyntax.Proofs.Lexeme.Faults
import XPathSyntax.Proofs.Lexeme.Bytes
import XPathSyntax.Proofs.TreeCache.Replay
import XPathSyntax.Proofs.TreeCache.Lookup
import XPathSyntax.Proofs.Parser.Budget
import XPathSyntax.Proofs.Parser.Recursion
import XPathSyntax.Proofs.CommandLine.Lines
import XPathSyntax.Proofs.CommandLine.Reports
import XPathSyntax.Proofs.Tree.Sexp
import XPathSyntax.Proofs.Grammar.Precedence
import XPathSyntax.Proofs.Parser.Raising
import XPathSyntax.Proofs.Source.LookBehind
import XPathSyntax.Proofs.Grammar.ChildAxis
import XPathSyntax.Proofs.Source.Layout
import XPathSyntax.Proofs.Source.Bracketing
import XPathSyntax.Proofs.RecencyMap.Inclusion
import XPathSyntax.Proofs.Source.Polling
import XPathSyntax.Proofs.Grammar.AxisTokens
import XPathSyntax.Proofs.Source.Slashes
import XPathSyntax.Proofs.Tree.Release
