import Stencil.Decimal
import Stencil.Settings.Path
import Stencil.Text.Quoted
import Stencil.Toml.Reader

/-!
# Settings

Settings are read from layers: the built-in defaults, settings texts, settings files, and
overrides of single values. Texts and files are laid over the defaults in order, and all overrides
over them; then the settings are read off the result, with conversions between kinds of values
where they make sense.
-/

namespace Stencil

/-- The settings of the library. -/
structure Settings where
  /-- The name of the source, as errors show it. -/
  sourceName : String
  /-- Whether JSON output is spread over several lines. -/
  prettyJson : Bool
  /-- The width at which the labels of tree views are cut off. -/
  labelWidth : Nat
  deriving DecidableEq, Repr

/-- A group of settings. -/
inductive SettingsSection where
  | parser
  | output
  deriving DecidableEq, Repr

namespace SettingsSection

/-- The key of a section. -/
def key : SettingsSection → String
  | .parser => "parser"
  | .output => "output"

/-- A section, as messages show it. -/
def describe : SettingsSection → String
  | .parser => "struct ParserConfig"
  | .output => "struct OutputConfig"

/-- The number of settings in a section, as messages show it. -/
def size : SettingsSection → String
  | .parser => "1 element"
  | .output => "2 elements"

end SettingsSection

/-- What keeps settings from being read. -/
inductive SettingsError where
  /-- The key of an override is not a path. -/
  | malformedPath
  /-- A settings text is not a TOML document. -/
  | malformedText
  /-- A required file does not exist. -/
  | missingFile
  /-- The value at a key cannot be converted to what is needed. -/
  | wrongKind (found expected key : String)
  /-- A section is a single value. -/
  | wrongSection (found : String) (place : SettingsSection)
  /-- A section is a list with too few elements. -/
  | shortSection (length : Nat) (place : SettingsSection)
  /-- A setting is not there. -/
  | missing (name : String)
  deriving DecidableEq, Repr

/-- The text of an error, where it has one of its own. -/
def SettingsError.message : SettingsError → String
  | .malformedPath | .malformedText | .missingFile => ""
  | .wrongKind found expected key =>
    "invalid type: " ++ found ++ ", expected " ++ expected ++ " for key `" ++ key ++ "`"
  | .wrongSection found place =>
    "invalid type: " ++ found ++ ", expected " ++ place.describe
  | .shortSection length place =>
    "invalid length " ++ toString length ++ ", expected " ++ place.describe ++ " with " ++
      place.size
  | .missing name => "missing field `" ++ name ++ "`"

namespace Settings

/-! ## Conversions -/

/-- A value that cannot be converted, as messages show it. -/
def describe : Value → String
  | .nil => "unit value"
  | .bool value => "boolean `" ++ toString value ++ "`"
  | .int value => "64-bit integer `" ++ toString value ++ "`"
  | .float value => "floating point `" ++ Decimal.text value ++ "`"
  | .string value => "string " ++ Text.quoted value
  | .array _ => "sequence"
  | .table _ => "map"

/-- The words that stand for true. -/
def trueWords : List String := ["true", "on", "yes"]

/-- The words that stand for false. -/
def falseWords : List String := ["false", "off", "no"]

/-- A value as a truth value: numbers are true unless they are zero, and strings by their words,
in any case. -/
def toBool (key : String) : Value → Except SettingsError Bool
  | .bool value => .ok value
  | .int value => .ok (value ≠ 0)
  | .float value => .ok (value != 0)
  | .string value =>
    let word := Text.toLowerCase value
    if word = "1" || trueWords.contains word then .ok true
    else if word = "0" || falseWords.contains word then .ok false
    else .error (.wrongKind (describe (.string word)) "a boolean" key)
  | value => .error (.wrongKind (describe value) "a boolean" key)

/-- One more than the greatest number that a setting can hold, which has 64 bits. -/
def numberBound : Nat := 0x10000000000000000

/-- The number that a text spells with decimal digits, after an optional plus sign. -/
def spelled? (text : String) : Option Nat :=
  let digits := match text.toList with
    | '+' :: digits => digits
    | digits => digits
  if digits.isEmpty || !digits.all Char.isDigit then none
  else
    let n := digits.foldl (fun n c => 10 * n + (c.toNat - '0'.toNat)) 0
    if n < numberBound then some n else none

/-- A value as a natural number: truth values are 0 and 1, fractions are rounded to the nearest
number, half away from zero, and strings are words or digits. -/
def toNumber (key : String) : Value → Except SettingsError Nat
  | .bool value => .ok (if value then 1 else 0)
  | .int value =>
    if 0 ≤ value then .ok value.toNat
    else
      .error (.wrongKind (describe (.int value)) "an unsigned 64 bit or less integer" key)
  | .float value => .ok value.round.toUInt64.toNat
  | .string value =>
    let word := Text.toLowerCase value
    if trueWords.contains word then .ok 1
    else if falseWords.contains word then .ok 0
    else match spelled? value with
      | some n => .ok n
      | none => .error (.wrongKind (describe (.string value)) "an integer" key)
  | value => .error (.wrongKind (describe value) "an integer" key)

/-- A value as a text. -/
def toText (key : String) : Value → Except SettingsError String
  | .string value => .ok value
  | .bool value => .ok (toString value)
  | .int value => .ok (toString value)
  | .float value => .ok (Decimal.text value)
  | value => .error (.wrongKind (describe value) "a string" key)

/-! ## Reading sections -/

/-- A single value in the place of a section, as messages show it. A fraction is shown with a
point. -/
def describeSingle : Value → String
  | .int value => "integer `" ++ toString value ++ "`"
  | .float value =>
    let text := Decimal.text value
    let whole := !text.toList.contains '.' && value.isFinite
    "floating point `" ++ (if whole then text ++ ".0" else text) ++ "`"
  | value => describe value

/-- Reads a setting of a section that is a table, if it is there. -/
def entry? {α : Type} (convert : String → Value → Except SettingsError α)
    (place : SettingsSection) (entries : List (String × Value)) (name : String) :
    Except SettingsError (Option α) :=
  match Value.lookup name entries with
  | none => .ok none
  | some value => (convert (place.key ++ "." ++ name) value).map some

/-- A setting that has to be there. -/
def required {α : Type} (name : String) : Option α → Except SettingsError α
  | some value => .ok value
  | none => .error (.missing name)

/-- Reads a setting of a section that is a list. -/
def element {α : Type} (convert : String → Value → Except SettingsError α)
    (place : SettingsSection) (elements : List Value) (position : Nat) :
    Except SettingsError α :=
  match elements[position]? with
  | none => .error (.shortSection position place)
  | some value => convert (place.key ++ "[" ++ toString position ++ "]") value

/-- Reads the section of the parser. -/
def readParser : Value → Except SettingsError String
  | .table entries => do
    required "source_name" (← entry? toText .parser entries "source_name")
  | .array elements => element toText .parser elements 0
  | value => .error (.wrongSection (describeSingle value) .parser)

/-- Reads the section of the output. A wrong value is reported before a missing one. -/
def readOutput : Value → Except SettingsError (Bool × Nat)
  | .table entries => do
    let pretty ← entry? toBool .output entries "pretty_json"
    let width ← entry? toNumber .output entries "truncate_labels"
    return (← required "pretty_json" pretty, ← required "truncate_labels" width)
  | .array elements => do
    return (← element toBool .output elements 0, ← element toNumber .output elements 1)
  | value => .error (.wrongSection (describeSingle value) .output)

/-- Reads a section of the root. -/
def section? {α : Type} (read : Value → Except SettingsError α) (place : SettingsSection)
    (root : Value) : Except SettingsError α :=
  match Value.lookup place.key root.entries with
  | none => .error (.missing place.key)
  | some value => read value

/-- Reads settings off a table of values. -/
def ofValue (root : Value) : Except SettingsError Settings := do
  let sourceName ← section? readParser .parser root
  let (prettyJson, labelWidth) ← section? readOutput .output root
  return ⟨sourceName, prettyJson, labelWidth⟩

/-! ## Layers -/

/-- A layer of settings. -/
inductive Layer where
  /-- A settings text. -/
  | text (content : String)
  /-- A value for a key that stands above all texts and files. -/
  | override (key : String) (value : Value)
  /-- A file with its content, if it exists; it has to. -/
  | file (content : Option String)
  /-- A file with its content, if it exists. -/
  | optionalFile (content : Option String)

/-- The built-in settings. -/
def builtIn : Value :=
  .table
    [("parser", .table [("source_name", .string "<input>")]),
      ("output", .table [("pretty_json", .bool true), ("truncate_labels", .int 30)])]

/- The text that the built-in settings are written down in. The kernel is slow to take a literal
apart, so its characters are put in its place first. -/
set_option maxRecDepth 2000 in
example : Toml.parse?
    ("# Built-in defaults for templaty. User files and overrides are layered on top.\n\n" ++
      "[parser]\n# Name reported in parse error messages.\nsource_name = \"<input>\"\n\n" ++
      "[output]\n# Pretty-print JSON output (ast-json, token-json).\npretty_json = true\n" ++
      "# Maximum characters shown per label in the tree view.\ntruncate_labels = 30\n") =
    some builtIn.entries := by
  change Toml.parse? (.ofList _ ++ .ofList _ ++ .ofList _ ++ .ofList _) = _
  rw [Toml.parse?, ← String.ofList_append, ← String.ofList_append, ← String.ofList_append,
    String.toList_ofList]
  rfl

/-- Lays the entries of a settings text over a table. A key that spells a path is used as one. -/
def overlay (root : Value) (entries : List (String × Value)) : Value :=
  entries.foldl
    (fun root entry =>
      match Path.parse? entry.1 with
      | some path => Value.set entry.2 path root
      | none => Value.put root entry.1 entry.2)
    root

/-- Lays a settings text over a table. -/
def overlayText (root : Value) (content : String) : Except SettingsError Value :=
  match Toml.parse? content with
  | some entries => .ok (overlay root entries)
  | none => .error .malformedText

/-- Lays a layer over a table; overrides have their turn later. -/
def overlayLayer (root : Value) : Layer → Except SettingsError Value
  | .text content => overlayText root content
  | .override .. => .ok root
  | .file none => .error .missingFile
  | .optionalFile none => .ok root
  | .file (some content) | .optionalFile (some content) => overlayText root content

/-- The overrides among layers, with their paths. -/
def overrides : List Layer → Except SettingsError (List (List Value.Step × Value))
  | [] => .ok []
  | .override key value :: rest =>
    match Path.parse? key with
    | none => .error .malformedPath
    | some path => (overrides rest).map ((path, value) :: ·)
  | _ :: rest => overrides rest

/-- Of several overrides of one path, only the last counts. -/
def lastOfEach : List (List Value.Step × Value) → List (List Value.Step × Value)
  | [] => []
  | first :: rest =>
    if rest.any (·.1 == first.1) then lastOfEach rest else first :: lastOfEach rest

/-- Reads settings from layers over the built-in ones. A malformed key of an override is reported
before anything else. -/
def load (layers : List Layer) : Except SettingsError Settings := do
  let overrides ← overrides layers
  let root ← layers.foldlM overlayLayer builtIn
  ofValue ((lastOfEach overrides).foldl (fun root entry => Value.set entry.2 entry.1 root) root)

/-- The settings without any layers. -/
def standard : Except SettingsError Settings :=
  load []

end Settings

end Stencil
