import Stencil.Json
import Stencil.Node

/-!
# Patterns

The binder of a loop is a name or a tuple of binders, nested to any depth. The empty tuple is a
pattern too.
-/

namespace Stencil

/-- A loop binder. -/
inductive Pattern where
  | var (name : String)
  | tuple (elements : List Pattern)
  deriving Inhabited, Repr

namespace Pattern

mutual

/-- The names that a pattern binds, from left to right. -/
def boundNames : Pattern → List String
  | .var name => [name]
  | .tuple elements => boundNamesOf elements

/-- The names that a list of patterns binds. -/
def boundNamesOf : List Pattern → List String
  | [] => []
  | element :: rest => boundNames element ++ boundNamesOf rest

end

mutual

/-- A pattern as it is written: a tuple between parentheses, with a comma and a space between its
elements. -/
def source : Pattern → String
  | .var name => name
  | .tuple elements => "(" ++ sources true elements ++ ")"

/-- The elements of a tuple; each but the first follows a comma. -/
def sources (first : Bool) : List Pattern → String
  | [] => ""
  | element :: rest => (if first then "" else ", ") ++ source element ++ sources false rest

end

mutual

/-- The node view of a pattern. -/
def node : Pattern → Node
  | .var name => .leaf "VarPattern" name
  | .tuple elements =>
    .mk "TuplePattern" ("(" ++ sources true elements ++ ")") (nodes elements)

/-- The node views of a list of patterns. -/
def nodes : List Pattern → List Node
  | [] => []
  | element :: rest => node element :: nodes rest

end

mutual

/-- A pattern in JSON output. -/
def toJson : Pattern → Json
  | .var name => .single "var" (.string name)
  | .tuple elements => .single "tuple" (.array (toJsons elements))

/-- The elements of a tuple in JSON output. -/
def toJsons : List Pattern → List Json
  | [] => []
  | element :: rest => toJson element :: toJsons rest

end

mutual

/-- Decides whether two patterns are equal. -/
def decEq : (p q : Pattern) → Decidable (p = q)
  | .var a, .var b =>
    if h : a = b then isTrue (by rw [h]) else isFalse (by simpa using h)
  | .tuple xs, .tuple ys =>
    match decEqs xs ys with
    | isTrue h => isTrue (by rw [h])
    | isFalse h => isFalse (by simpa using h)
  | .var _, .tuple _ => isFalse (by simp)
  | .tuple _, .var _ => isFalse (by simp)

/-- Decides whether two lists of patterns are equal. -/
def decEqs : (ps qs : List Pattern) → Decidable (ps = qs)
  | [], [] => isTrue rfl
  | p :: ps, q :: qs =>
    match decEq p q, decEqs ps qs with
    | isTrue h, isTrue hs => isTrue (by rw [h, hs])
    | isFalse h, _ => isFalse (by simp [h])
    | _, isFalse hs => isFalse (by simp [hs])
  | [], _ :: _ => isFalse (by simp)
  | _ :: _, [] => isFalse (by simp)

end

instance : DecidableEq Pattern := decEq

end Pattern

end Stencil
