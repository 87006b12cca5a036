import Guion.Decimal
import Guion.Diagnostic.Collector
import Guion.Diagnostic.Formatter
import Guion.Diagnostic.Stepwise
import Guion.Parser.Grammar
import Guion.Parser.Journal
import Guion.Proofs.Diagnostic.Cache
import Guion.Proofs.Diagnostic.Excerpt
import Guion.Proofs.Diagnostic.Locators
import Guion.Proofs.Diagnostic.Rendering
import Guion.Proofs.Diagnostic.Stepwise
import Guion.Proofs.Diagnostic.Underline
import Guion.Proofs.Diagnostic.Window
import Guion.Proofs.Grammar.Derivation
import Guion.Proofs.Grammar.Reading
import Guion.Proofs.Parser.Absence
import Guion.Proofs.Parser.Brackets
import Guion.Proofs.Parser.Completeness
import Guion.Proofs.Parser.Concatenation
import Guion.Proofs.Parser.Confinement
import Guion.Proofs.Parser.ErrorOrder
import Guion.Proofs.Parser.ErrorViews
import Guion.Proofs.Parser.Forward
import Guion.Proofs.Parser.LeadingToken
import Guion.Proofs.Parser.Moves
import Guion.Proofs.Parser.NameList
import Guion.Proofs.Parser.Numerals
import Guion.Proofs.Parser.ParameterRecovery
import Guion.Proofs.Parser.Plan
import Guion.Proofs.Parser.Program
import Guion.Proofs.Parser.Progress
import Guion.Proofs.Parser.Recovery
import Guion.Proofs.Parser.Relocation
import Guion.Proofs.Parser.Run
import Guion.Proofs.Parser.Skipping
import Guion.Proofs.Parser.Soundness
import Guion.Proofs.Scanner.Coverage
import Guion.Proofs.Scanner.LineColumn
import Guion.Proofs.Scanner.LongestMatch
import Guion.Proofs.Scanner.Place
import Guion.Proofs.Scanner.Rejoining
import Guion.Proofs.Scanner.Spelling
import Guion.Proofs.Settings.Loading
import Guion.Proofs.Text.Lines
import Guion.Proofs.Text.Numeral
import Guion.Proofs.Tree.Numerals
import Guion.Proofs.Tree.Place
import Guion.Proofs.Tree.Preorder
import Guion.Proofs.Tree.Relocation
import Guion.Proofs.Tree.RoundTrip
import Guion.Proofs.Tree.Shape
import Guion.Proofs.Tree.WellFormed
import Guion.Settings.Basic
import Guion.Settings.FromYaml
import Guion.Text.Blank
import Guion.Text.Case
import Guion.Text.Letter
import Guion.Text.Numeral
import Guion.Text.Quoted
import Guion.Text.Utf8
import Guion.Token.Basic
import Guion.Token.Scan
import Guion.Toml.Table
import Guion.Toml.Text
import Guion.Tree.Render
import Guion.Tree.Walk
