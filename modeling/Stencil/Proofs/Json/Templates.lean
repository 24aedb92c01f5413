import Stencil.Proofs.Json.Unambiguous
import Stencil.Statement

/-!
# The JSON output of a template says which template it is

Every kind of node has a key of its own among those that can stand in its place, and under the key
stand the parts of the node, each under a key that says which part it is. So no two templates have
the same JSON value, and no two values have the same text, on one line or over several.

* `Pattern.toJson_inj`, `Expression.toJson_inj` and `TextStatement.toJson_inj`: the values of parts
  of templates.
* `render_toJsons_eq_iff`: the texts of templates.
-/

namespace Stencil

namespace Pattern

mutual

theorem toJson_inj {p q : Pattern} (h : p.toJson = q.toJson) : p = q := by
  match p, q with
  | .var a, .var b => simpa [toJson, Json.single] using h
  | .tuple ps, .tuple qs =>
    have hps : toJsons ps = toJsons qs := by simpa [toJson, Json.single] using h
    rw [toJsons_inj hps]
  | .var _, .tuple _ | .tuple _, .var _ => simp [toJson, Json.single] at h

theorem toJsons_inj {ps qs : List Pattern} (h : toJsons ps = toJsons qs) : ps = qs := by
  match ps, qs with
  | [], [] => rfl
  | p :: ps, q :: qs =>
    obtain ⟨hp, hps⟩ := List.cons.inj h
    rw [toJson_inj hp, toJsons_inj hps]
  | [], _ :: _ | _ :: _, [] => cases h

end

end Pattern

theorem Literal.toJson_inj {a b : Literal} (h : a.toJson = b.toJson) : a = b := by
  match a, b with
  | .string _, .string _ | .integer _, .integer _ => simpa [toJson, Json.single] using h
  | .string _, .integer _ | .integer _, .string _ => simp [toJson, Json.single] at h

theorem Expression.toJson_inj {e f : Expression} (h : e.toJson = f.toJson) : e = f := by
  match e, f with
  | .reference _, .reference _ => simpa [toJson, Json.single] using h
  | .literal a, .literal b =>
    have hvalue : a.toJson = b.toJson := by simpa [toJson, Json.single] using h
    rw [Literal.toJson_inj hvalue]
  | .reference _, .literal _ | .literal _, .reference _ => simp [toJson, Json.single] at h

namespace TextStatement

mutual

theorem toJson_inj {u v : TextStatement} (h : u.toJson = v.toJson) : u = v := by
  match u, v with
  | .plain a, .plain b => simpa [toJson, Statement.toJson, textJson, Json.single] using h
  | .interpolation e, .interpolation f =>
    have he : e.toJson = f.toJson := by
      simpa [toJson, Statement.toJson, interpolationJson, Json.single] using h
    rw [Expression.toJson_inj he]
  | .forIn p e us, .forIn q f vs =>
    obtain ⟨hp, he, hus⟩ : p.toJson = q.toJson ∧ e.toJson = f.toJson ∧ toJsons us = toJsons vs := by
      simpa [toJson, toJsons, Statement.toJson, forInJson, Json.single] using h
    rw [Pattern.toJson_inj hp, Expression.toJson_inj he, toJsons_inj hus]
  | .join p e s us, .join q f t vs =>
    obtain ⟨hp, he, hs, hus⟩ : p.toJson = q.toJson ∧ e.toJson = f.toJson ∧ s.toJson = t.toJson ∧
        toJsons us = toJsons vs := by
      simpa [toJson, toJsons, Statement.toJson, joinJson, Json.single] using h
    rw [Pattern.toJson_inj hp, Expression.toJson_inj he, Expression.toJson_inj hs,
      toJsons_inj hus]
  | .plain _, .interpolation _ | .plain _, .forIn .. | .plain _, .join ..
  | .interpolation _, .plain _ | .interpolation _, .forIn .. | .interpolation _, .join ..
  | .forIn .., .plain _ | .forIn .., .interpolation _ | .forIn .., .join ..
  | .join .., .plain _ | .join .., .interpolation _ | .join .., .forIn .. =>
    simp [toJson, Statement.toJson, textJson, interpolationJson, forInJson, joinJson,
      Json.single] at h

theorem toJsons_inj {us vs : List TextStatement} (h : toJsons us = toJsons vs) : us = vs := by
  match us, vs with
  | [], [] => rfl
  | u :: us, v :: vs =>
    obtain ⟨hu, hus⟩ := List.cons.inj h
    rw [toJson_inj hu, toJsons_inj hus]
  | [], _ :: _ | _ :: _, [] => cases h

end

end TextStatement

open TextStatement

/-- No two templates have the same JSON output, and what it holds over several lines is, without
white space outside of strings, what it holds on one line. -/
theorem render_toJsons_eq_iff (template other : List TextStatement) :
    (∀ spread, Json.render spread (.array (toJsons template)) =
        Json.render spread (.array (toJsons other)) ↔ template = other) ∧
      Json.squeeze (Json.render true (.array (toJsons template))) =
        Json.render false (.array (toJsons template)) := by
  constructor
  · intro spread
    rw [Json.render_inj, Json.array.injEq]
    exact ⟨toJsons_inj, congrArg toJsons⟩
  · exact Json.squeeze_pretty _

end Stencil
