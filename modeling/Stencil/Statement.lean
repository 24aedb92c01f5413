import Stencil.Expression
import Stencil.Pattern
import Stencil.Text.Quoted

/-!
# Statements

A template is a sequence of statements. Some are plain: a run of text in a template over raw text,
a statement of the host language in a template that is spliced into one. The others are
directives: an interpolation, a loop, or a loop whose rounds are joined by a separator.

* `Statement.source` writes a statement back; `Statement.node` is its node view.
* `TextStatement` is the type of statements of templates over raw text.
-/

namespace Stencil

/-- A statement over expressions `E` and plain statements `L`. -/
inductive Statement (E L : Type) where
  | plain (statement : L)
  | interpolation (expression : E)
  | forIn (binder : Pattern) (iterable : E) (body : List (Statement E L))
  | join (binder : Pattern) (iterable separator : E) (body : List (Statement E L))
  deriving Repr

/-- A statement of a template over raw text. -/
abbrev TextStatement := Statement Expression String

/-! ## The parts that all dialects share -/

/-- A loop as it is written, from the texts of its parts. -/
def forInSource (binder : Pattern) (iterable body : String) : String :=
  "\x7b% for " ++ binder.source ++ " in " ++ iterable ++ " %\x7d" ++ body ++ "\x7b% endfor %\x7d"

/-- A joined loop as it is written, from the texts of its parts. -/
def joinSource (binder : Pattern) (iterable separator body : String) : String :=
  "\x7b% join " ++ binder.source ++ " in " ++ iterable ++ " with " ++ separator ++ " %\x7d" ++
    body ++ "\x7b% endjoin %\x7d"

/-- The node of an interpolation, from that of its expression. -/
def interpolationNode (expression : Node) : Node :=
  .leaf "ExpressionStatement" expression.label

/-- The node of a loop, from those of its parts. -/
def forInNode (binder : Pattern) (iterable : Node) (body : List Node) : Node :=
  .mk "ForInStatement" (binder.source ++ " in " ++ iterable.label) body

/-- The node of a joined loop, from those of its parts. -/
def joinNode (binder : Pattern) (iterable separator : Node) (body : List Node) : Node :=
  .mk "JoinStatement" (binder.source ++ " in " ++ iterable.label ++ " with " ++ separator.label)
    body

/-- An interpolation in JSON output, from its expression. -/
def interpolationJson (expression : Json) : Json :=
  .single "expression" (.single "expression" expression)

/-- A loop in JSON output, from its parts. -/
def forInJson (binder : Pattern) (iterable : Json) (body : List Json) : Json :=
  .single "for_in"
    (.object [("binder", binder.toJson), ("iterable", iterable), ("body", .array body)])

/-- A joined loop in JSON output, from its parts. -/
def joinJson (binder : Pattern) (iterable separator : Json) (body : List Json) : Json :=
  .single "join"
    (.object [("binder", binder.toJson), ("iterable", iterable), ("separator", separator),
      ("body", .array body)])

namespace Statement

variable {E L : Type}

/-- Whether a statement is a block, that is, has a body. -/
def isBlock : Statement E L → Bool
  | .forIn .. | .join .. => true
  | _ => false

/-! ## Writing statements -/

section Source

variable (expression : E → String) (plain : L → String)

mutual

/-- A statement as it is written. -/
def source : Statement E L → String
  | .plain statement => plain statement
  | .interpolation e => interpolationSource (expression e)
  | .forIn binder iterable body => forInSource binder (expression iterable) (sources body)
  | .join binder iterable separator body =>
    joinSource binder (expression iterable) (expression separator) (sources body)

/-- A sequence of statements as it is written, with nothing between them. -/
def sources : List (Statement E L) → String
  | [] => ""
  | statement :: rest => source statement ++ sources rest

end

end Source

/-! ## The node view -/

section Nodes

variable (expression : E → Node) (plain : L → Node)

mutual

/-- The node view of a statement. -/
def node : Statement E L → Node
  | .plain statement => plain statement
  | .interpolation e => interpolationNode (expression e)
  | .forIn binder iterable body => forInNode binder (expression iterable) (nodes body)
  | .join binder iterable separator body =>
    joinNode binder (expression iterable) (expression separator) (nodes body)

/-- The node views of a sequence of statements. -/
def nodes : List (Statement E L) → List Node
  | [] => []
  | statement :: rest => node statement :: nodes rest

end

end Nodes

/-! ## JSON output -/

section ToJson

variable (expression : E → Json) (plain : L → Json) (directive : Json → Json)

mutual

/-- A statement in JSON output; `directive` is applied to the form of every directive. -/
def toJson : Statement E L → Json
  | .plain statement => plain statement
  | .interpolation e => directive (interpolationJson (expression e))
  | .forIn binder iterable body =>
    directive (forInJson binder (expression iterable) (toJsons body))
  | .join binder iterable separator body =>
    directive (joinJson binder (expression iterable) (expression separator) (toJsons body))

/-- A sequence of statements in JSON output. -/
def toJsons : List (Statement E L) → List Json
  | [] => []
  | statement :: rest => toJson statement :: toJsons rest

end

end ToJson

/-! ## Equality -/

section Equality

variable [DecidableEq E] [DecidableEq L]

mutual

/-- Whether two statements are equal. -/
def beq : Statement E L → Statement E L → Bool
  | .plain a, .plain b => a == b
  | .interpolation a, .interpolation b => a == b
  | .forIn p a xs, .forIn q b ys => p == q && a == b && beqs xs ys
  | .join p a s xs, .join q b t ys => p == q && a == b && s == t && beqs xs ys
  | _, _ => false

/-- Whether two sequences of statements are equal. -/
def beqs : List (Statement E L) → List (Statement E L) → Bool
  | [], [] => true
  | x :: xs, y :: ys => beq x y && beqs xs ys
  | _, _ => false

end

mutual

theorem beq_iff : (s t : Statement E L) → (beq s t = true ↔ s = t)
  | .plain a, .plain b => by simp [beq]
  | .interpolation a, .interpolation b => by simp [beq]
  | .forIn p a xs, .forIn q b ys => by simp [beq, beqs_iff xs ys, and_assoc]
  | .join p a s xs, .join q b t ys => by simp [beq, beqs_iff xs ys, and_assoc]
  | .plain _, .interpolation _ | .plain _, .forIn .. | .plain _, .join .. => by simp [beq]
  | .interpolation _, .plain _ | .interpolation _, .forIn .. | .interpolation _, .join .. => by
    simp [beq]
  | .forIn .., .plain _ | .forIn .., .interpolation _ | .forIn .., .join .. => by simp [beq]
  | .join .., .plain _ | .join .., .interpolation _ | .join .., .forIn .. => by simp [beq]

theorem beqs_iff : (ss ts : List (Statement E L)) → (beqs ss ts = true ↔ ss = ts)
  | [], [] => by simp [beqs]
  | s :: ss, t :: ts => by simp [beqs, beq_iff s t, beqs_iff ss ts]
  | [], _ :: _ | _ :: _, [] => by simp [beqs]

end

instance : DecidableEq (Statement E L) := fun s t =>
  decidable_of_iff _ (beq_iff s t)

end Equality

end Statement

/-! ## Templates over raw text -/

namespace TextStatement

/-- A statement as it is written: text stands for itself. -/
def source (statement : TextStatement) : String :=
  Statement.source Expression.source id statement

/-- A template as it is written. -/
def sources (template : List TextStatement) : String :=
  Statement.sources Expression.source id template

/-- The node of a run of text: its label is the quoted text. -/
def textNode (content : String) : Node :=
  .leaf "TextStatement" (Text.quoted content)

/-- The node view of a statement. -/
def node (statement : TextStatement) : Node :=
  Statement.node Expression.node textNode statement

/-- The node views of a template. -/
def nodes (template : List TextStatement) : List Node :=
  Statement.nodes Expression.node textNode template

/-- A run of text in JSON output. -/
def textJson (content : String) : Json :=
  .single "text" (.single "text" (.string content))

/-- A statement in JSON output. -/
def toJson (statement : TextStatement) : Json :=
  Statement.toJson Expression.toJson textJson id statement

/-- A template in JSON output. -/
def toJsons (template : List TextStatement) : List Json :=
  Statement.toJsons Expression.toJson textJson id template

end TextStatement

end Stencil
