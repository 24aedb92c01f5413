import Stencil.Dialect
import Stencil.Host.Calc
import Stencil.Host.Declared
import Stencil.Settings
import Stencil.TreeView

/-!
# From a source to an output

An output shows one stage of reading a source, its tokens or its tree, in one of several formats.
The pair of them is named by words like `token-simple` or `ast-json`. Not all pairs are available.
-/

namespace Stencil

/-! ## Output forms -/

/-- What is shown of a source. -/
inductive Stage where
  | token
  | ast
  deriving DecidableEq, Repr

/-- How it is shown. -/
inductive OutputFormat where
  | simple
  | json
  | treeviz
  | source
  deriving DecidableEq, Repr

namespace Stage

/-- The name of a stage. -/
def name : Stage → String
  | .token => "token"
  | .ast => "ast"

/-- The stage of a name. -/
def ofName? (name : String) : Option Stage :=
  [Stage.token, .ast].find? (·.name == name)

end Stage

namespace OutputFormat

/-- The name of a format. -/
def name : OutputFormat → String
  | .simple => "simple"
  | .json => "json"
  | .treeviz => "treeviz"
  | .source => "source"

/-- The format of a name. -/
def ofName? (name : String) : Option OutputFormat :=
  [OutputFormat.simple, .json, .treeviz, .source].find? (·.name == name)

end OutputFormat

/-- What is asked for: a stage in a format. -/
structure OutputSpec where
  stage : Stage
  format : OutputFormat
  deriving DecidableEq, Repr

/-- What keeps an output from being made. -/
inductive ProcessingError where
  /-- The name of an output has no hyphen. -/
  | invalidFormat (text : String)
  | invalidStage (text : String)
  | invalidFormatType (text : String)
  | unsupportedCombination (text : String)
  | parse (errors : List ParseError)
  | serialization (text : String)
  deriving DecidableEq, Repr

/-- The text of an error. -/
def ProcessingError.message : ProcessingError → String
  | .invalidFormat text => "Invalid format: " ++ text
  | .invalidStage text => "Invalid stage: " ++ text
  | .invalidFormatType text => "Invalid format type: " ++ text
  | .unsupportedCombination text => "Format '" ++ text ++ "' is not available"
  | .parse errors =>
    "Failed to parse template:" ++ String.join (errors.map fun error => "\n  " ++ error.message)
  | .serialization text => "Serialization error: " ++ text

namespace OutputSpec

/-- The outputs that can be asked for by name. -/
def available : List OutputSpec :=
  [⟨.token, .simple⟩, ⟨.token, .json⟩, ⟨.ast, .json⟩, ⟨.ast, .treeviz⟩, ⟨.ast, .source⟩]

/-- The name of an output. -/
def name (spec : OutputSpec) : String :=
  spec.stage.name ++ "-" ++ spec.format.name

/-- The names of the available outputs. -/
def availableNames : List String :=
  available.map name

/-- The output of a name: the stage before the first hyphen, and the format after it. -/
def ofName (text : String) : Except ProcessingError OutputSpec :=
  let chars := text.toList
  let stageName := String.ofList (chars.takeWhile (· != '-'))
  match chars.dropWhile (· != '-') with
  | [] => .error (.invalidFormat text)
  | _ :: rest =>
    let formatName := String.ofList rest
    match Stage.ofName? stageName, OutputFormat.ofName? formatName with
    | none, _ => .error (.invalidStage stageName)
    | some _, none => .error (.invalidFormatType formatName)
    | some stage, some format =>
      let spec : OutputSpec := ⟨stage, format⟩
      if available.contains spec then .ok spec else .error (.unsupportedCombination text)

end OutputSpec

/-! ## Trees of a dialect -/

/-- How the templates of a dialect are written out. -/
structure Rendering (E L : Type) where
  source : List (Statement E L) → String
  nodes : List (Statement E L) → List Node
  json : List (Statement E L) → List Json

/-- Templates over raw text. -/
def Rendering.text : Rendering Expression String :=
  ⟨TextStatement.sources, TextStatement.nodes, TextStatement.toJsons⟩

/-- Templates in calculator code. -/
def Rendering.calc : Rendering Calc.SplicedExpr Calc.Stmt :=
  ⟨Calc.statementSources, Calc.statementNodes, Calc.statementJsons⟩

/-- Templates in the code of a host with declared rules. -/
def Rendering.declared : Rendering (Spliced Declared.Expr) Declared.Stmt :=
  ⟨Declared.sources, Declared.nodes, Declared.toJsons⟩

/-! ## Processing -/

/-- A lexeme on a line of its own: its range, and what it is. -/
def Lexeme.line (lexeme : Lexeme) : String :=
  toString lexeme.range.start ++ ".." ++ toString lexeme.range.stop ++ " " ++
    lexeme.token.describe ++ "\n"

/-- The tokens of a source in a format. -/
def processTokens (settings : Settings) (mode : Mode) (source : String) :
    OutputFormat → Except ProcessingError String
  | .simple => .ok (String.join ((lexemes mode source).map Lexeme.line))
  | .json =>
    .ok (Json.render settings.prettyJson (.array ((lexemes mode source).map Lexeme.toJson)))
  | format => .error (.unsupportedCombination (OutputSpec.name ⟨.token, format⟩))

/-- A template in a format. -/
def processTree {E L : Type} (rendering : Rendering E L) (settings : Settings)
    (template : List (Statement E L)) : OutputFormat → Except ProcessingError String
  | .json => .ok (Json.render settings.prettyJson (.array (rendering.json template)))
  | .treeviz => .ok (TreeView.render settings.labelWidth (rendering.nodes template))
  | .source => .ok (rendering.source template)
  | .simple => .error (.unsupportedCombination (OutputSpec.name ⟨.ast, .simple⟩))

/-- The output of a source. -/
def process {E L : Type} (dialect : Dialect E L) (rendering : Rendering E L)
    (settings : Settings) (spec : OutputSpec) (source : String) :
    Except ProcessingError String :=
  match spec.stage with
  | .token => processTokens settings dialect.mode source spec.format
  | .ast =>
    match dialect.parse (some settings.sourceName) source with
    | .error errors => .error (.parse errors)
    | .ok template => processTree rendering settings template spec.format

/-- What keeps an output from being made with settings that are still to be read. -/
inductive OutputError where
  | settings (cause : SettingsError)
  | processing (cause : ProcessingError)
  deriving DecidableEq, Repr

/-- The output of a source with the settings of layers. A mistake in what is asked for is reported
before one in the settings, and both before anything in the source. -/
def processWith {E L : Type} (dialect : Dialect E L) (rendering : Rendering E L)
    (layers : List Settings.Layer) (spec : Except ProcessingError OutputSpec) (source : String) :
    Except OutputError String := do
  let spec ← spec.mapError .processing
  let settings ← (Settings.load layers).mapError .settings
  (process dialect rendering settings spec source).mapError .processing

end Stencil
