import Stencil.Settings.Value
import Stencil.Toml.Moment

/-!
# The items of a TOML document

While a document is read, each table remembers how it came to be: by a header of its own, on the
way to a table with a header, or by a key with points in it. What may be added to it later depends
on that, since nothing may be defined twice.

* `Entries.define`, `Entries.openTable` and `Entries.openElement` add to a document.
* `tableValue?` is the value of a finished table. A table that begins with the key `momentKey`
  stands for a date or a time.
-/

namespace Stencil.Toml

/-- How a table came to be. -/
inductive Origin where
  /-- By a header, as an element of an array of tables, or as an inline table. -/
  | explicit
  /-- On the way to a table with a header. -/
  | implicit
  /-- By a key with points in it. -/
  | dotted
  deriving DecidableEq, Repr

/-- What a key stands for. -/
inductive Item where
  /-- A string, a number or a truth value. -/
  | scalar (value : Value)
  /-- A date or a time, as its text. -/
  | moment (text : String)
  | array (elements : List Item)
  /-- A table between braces, to which nothing can be added. -/
  | inline (entries : List (String × Item))
  | table (origin : Origin) (entries : List (String × Item))
  /-- The tables that the headers of an array of tables opened, in order. -/
  | tables (elements : List (List (String × Item)))

/-- The entries of a table. -/
abbrev Entries := List (String × Item)

namespace Entries

/-- The item of a key. -/
def get? (entries : Entries) (key : String) : Option Item :=
  (entries.find? (·.1 == key)).map Prod.snd

/-- Gives a key an item: in the place of its old one, or at the end. -/
def put (key : String) (item : Item) : Entries → Entries
  | [] => [(key, item)]
  | entry :: rest => if entry.1 = key then (key, item) :: rest else entry :: put key item rest

/-- The entries without that of a key. -/
def erase (key : String) (entries : Entries) : Entries :=
  entries.filter (·.1 != key)

/-- Changes the table at the end of a path, making tables on the way. In an array of tables the
way goes through the last one. By a key with points (`dotted`) only tables can be reached that
such keys, or headers of tables below them, have made. -/
def within (dotted : Bool) (change : Origin → Entries → Option Entries) :
    List String → Origin → Entries → Option Entries
  | [], origin, entries => change origin entries
  | key :: path, _, entries =>
    match entries.get? key with
    | none => do
      let origin := if dotted then Origin.dotted else Origin.implicit
      let inner ← within dotted change path origin []
      return put key (.table origin inner) entries
    | some (.tables elements) => do
      let last ← elements.getLast?
      let inner ← within dotted change path .explicit last
      return put key (.tables (elements.dropLast ++ [inner])) entries
    | some (.table origin inner) =>
      if dotted && origin = .explicit then none
      else do
        let inner ← within dotted change path origin inner
        return put key (.table origin inner) entries
    | some _ => none

/-- Defines a key, after the keys of a path with points between them. -/
def define (path : List String) (key : String) (item : Item) (origin : Origin)
    (entries : Entries) : Option Entries :=
  within true
    (fun reached entries =>
      if (reached == .dotted) == path.isEmpty || (entries.get? key).isSome then none
      else some (put key item entries))
    path origin entries

/-- Opens the table of a header with the given last key. A table that was only on the way before
keeps its entries, and goes behind the others. -/
def openTable (key : String) (_ : Origin) (entries : Entries) : Option Entries :=
  match entries.get? key with
  | none => some (put key (.table .explicit []) entries)
  | some (.table .implicit inner) => some (put key (.table .explicit inner) (erase key entries))
  | some _ => none

/-- Opens a further table in the array of tables of a header with the given last key. -/
def openElement (key : String) (_ : Origin) (entries : Entries) : Option Entries :=
  match entries.get? key with
  | none => some (put key (.tables [[]]) entries)
  | some (.tables elements) => some (put key (.tables (elements ++ [[]])) entries)
  | some _ => none

end Entries

/-- The key that marks a table as a date or a time. -/
def momentKey : String := "$__toml_private_datetime"

/-- The date or time that an item spells in quotes. -/
def Item.spelledMoment? : Item → Option Value
  | .scalar (.string text) => (moment? text.toList).map .string
  | _ => none

mutual

/-- The value of an item; there is none if a date or a time in it is malformed. -/
def Item.value? : Item → Option Value
  | .scalar value => some value
  | .moment text => some (.string text)
  | .array elements => (elementValues? elements).map .array
  | .inline entries => tableValue? entries
  | .table _ entries => tableValue? entries
  | .tables elements => (tableValues? elements).map .array

/-- The value of a table. If it begins with the key of dates and times, what follows that does not
count. -/
def tableValue? : List (String × Item) → Option Value
  | [] => some (.table [])
  | (key, item) :: rest =>
    if key = momentKey then item.spelledMoment?
    else do
      let value ← item.value?
      let values ← entryValues? rest
      return .table ((key, value) :: values)

/-- The values of entries. -/
def entryValues? : List (String × Item) → Option (List (String × Value))
  | [] => some []
  | (key, item) :: rest => do
    let value ← item.value?
    let values ← entryValues? rest
    return (key, value) :: values

/-- The values of the elements of an array. -/
def elementValues? : List Item → Option (List Value)
  | [] => some []
  | item :: rest => do
    let value ← item.value?
    let values ← elementValues? rest
    return value :: values

/-- The values of the tables in an array of tables. -/
def tableValues? : List (List (String × Item)) → Option (List Value)
  | [] => some []
  | entries :: rest => do
    let value ← tableValue? entries
    let values ← tableValues? rest
    return value :: values

end

end Stencil.Toml
