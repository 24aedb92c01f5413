import Stencil.Text.LowerCase

/-!
# Values of settings

Settings are read from tables of values that are laid over each other.

* `Value.put` lays a value over the entry of a table: tables are merged entry by entry, anything
  else is replaced.
* `Value.set` does so at the end of a path, making tables and arrays on the way.
-/

namespace Stencil

/-- A value as it stands in a settings text or an override. -/
inductive Value where
  | nil
  | bool (value : Bool)
  | int (value : Int)
  | float (value : Float)
  | string (value : String)
  | array (elements : List Value)
  | table (entries : List (String × Value))
  deriving Inhabited

namespace Value

/-! ## Tables and arrays -/

/-- The entries of a table; anything else has none. -/
def entries : Value → List (String × Value)
  | .table entries => entries
  | _ => []

@[simp] theorem entries_table (entries : List (String × Value)) :
    (table entries).entries = entries := rfl

/-- The elements of an array; anything else has none. -/
def elements : Value → List Value
  | .array elements => elements
  | _ => []

/-- The value of a key among entries. -/
def lookup (key : String) (entries : List (String × Value)) : Option Value :=
  (entries.find? (·.1 == key)).map Prod.snd

@[simp] theorem lookup_nil (key : String) : lookup key [] = none := rfl

/-- Gives a key a value: in the place of its old one, or at the end. -/
def insert (key : String) (value : Value) : List (String × Value) → List (String × Value)
  | [] => [(key, value)]
  | entry :: rest =>
    if entry.1 = key then (key, value) :: rest else entry :: insert key value rest

@[simp] theorem lookup_insert_self (key : String) (value : Value)
    (entries : List (String × Value)) : lookup key (insert key value entries) = some value := by
  induction entries with
  | nil => simp [insert, lookup]
  | cons entry rest ih =>
    by_cases h : entry.1 = key
    · simp [insert, lookup, h]
    · simpa [insert, lookup, h] using ih

theorem lookup_insert_of_ne {key other : String} (h : other ≠ key) (value : Value)
    (entries : List (String × Value)) :
    lookup other (insert key value entries) = lookup other entries := by
  induction entries with
  | nil => simp [insert, lookup, Ne.symm h]
  | cons entry rest ih =>
    by_cases hkey : entry.1 = key
    · simp [insert, lookup, hkey, Ne.symm h]
    · by_cases hother : entry.1 = other
      · simp [insert, lookup, hother, h]
      · simpa [insert, lookup, hkey, hother] using ih

/-! ## Laying values over each other -/

mutual

/-- Lays a value over an entry of a table. What is not a table counts as an empty one. Keys are
kept in lower case. -/
def put (root : Value) (key : String) : Value → Value
  | .table incoming =>
    let key := Text.toLowerCase key
    let old := (lookup key root.entries).getD (.table [])
    .table (insert key (putAll old incoming) root.entries)
  | value => .table (insert (Text.toLowerCase key) value root.entries)

/-- Lays entries over a table, one after the other. Without entries nothing changes. -/
def putAll (root : Value) : List (String × Value) → Value
  | [] => root
  | (key, value) :: rest => putAll (put root key value) rest

end

/-! ## Paths -/

/-- A step from a value to a part of it. -/
inductive Step where
  | key (name : String)
  /-- An element of an array; a negative index counts from the end. -/
  | index (position : Int)
  deriving DecidableEq, Repr

/-- The position that an index denotes in an array. -/
def position (index : Int) (length : Nat) : Nat :=
  if 0 ≤ index then index.toNat else length - (-index).toNat

/-- Replaces the element at a position; missing elements before it become nil. -/
def replaceAt (elements : List Value) (position : Nat) (value : Value) : List Value :=
  (elements ++ List.replicate (position + 1 - elements.length) Value.nil).set position value

/-- Sets the value at the end of a path. On the way, what is not a table or an array where the
path needs one is replaced by an empty one. The keys of the path count in lower case. -/
def set (value : Value) : List Step → Value → Value
  | [], _ => value
  | [.key name], root => put root name value
  | [.index index], root =>
    .array (replaceAt root.elements (position index root.elements.length) value)
  | .key name :: rest, root =>
    let key := Text.toLowerCase name
    let old := (lookup key root.entries).getD .nil
    .table (insert key (set value rest old) root.entries)
  | .index index :: rest, root =>
    let place := position index root.elements.length
    let old := (root.elements[place]?).getD .nil
    .array (replaceAt root.elements place (set value rest old))

end Value

end Stencil
