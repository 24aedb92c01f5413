import Stencil.Text.UpperCase
import Stencil.Text.LowerCase
import Stencil.Lexeme
import Stencil.Location
import Stencil.Statement
import Stencil.ParseError
import Stencil.Dialect
import Stencil.Composition
import Stencil.Host.Calc
import Stencil.Host.Declared
import Stencil.TreeView
import Stencil.Decimal
import Stencil.Settings.Path
import Stencil.Toml.Reader
import Stencil.Pipeline
import Stencil.Inspection
import Stencil.Proofs.Grammar.TextTemplates
import Stencil.Proofs.Grammar.FirstSets
import Stencil.Proofs.Composition.Conservative
import Stencil.Proofs.Template.RoundTrip
import Stencil.Proofs.Composition.Ambiguity
import Stencil.Proofs.Template.Conservation
import Stencil.Proofs.Host.CalcRoundTrip
import Stencil.Proofs.Host.CalcGrammar
import Stencil.Proofs.Template.NormalForm
import Stencil.Proofs.Errors.Truthful
import Stencil.Proofs.Errors.FirstOffence
import Stencil.Proofs.Errors.BlockErrors
import Stencil.Proofs.Lexeme.Lossless
import Stencil.Proofs.Template.Assembly
import Stencil.Proofs.Composition.Frame
import Stencil.Proofs.Composition.Precedence
import Stencil.Proofs.Lexeme.Modes
import Stencil.Proofs.Template.Parsed
import Stencil.Proofs.Lexeme.Spacing
import Stencil.Proofs.Lexeme.Positions
import Stencil.Proofs.Template.Fragments
import Stencil.Proofs.TreeView.Lines
import Stencil.Proofs.Json.Templates
import Stencil.Proofs.Settings.Layers
import Stencil.Proofs.Host.Progress
