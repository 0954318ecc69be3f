/-!
# Tables of TOML

A document is a table of named items.  A table comes into being in one of four
ways, and what may still be added to it depends on which: nothing is ever
defined twice.
-/

namespace WorkflowLang
namespace Toml

/-- How a table came into being. -/
inductive Origin where
  /-- Its own header, or the document itself. -/
  | header
  /-- The header of a table inside it. -/
  | implied
  | dotted
  /-- Braces. -/
  | inline
  deriving DecidableEq, Inhabited, Repr

/-- An item of a table.  Of floats, dates and times only the presence is
kept. -/
inductive Item where
  | string (text : String)
  | integer (value : Int)
  | float
  | boolean (value : Bool)
  | dateTime
  | array (items : List Item)
  | table (origin : Origin) (entries : List (String × Item))
  /-- An array of tables that headers extend. -/
  | tables (rows : List (List (String × Item)))
  deriving Inhabited

/-- The named items of a table. -/
abbrev Entries := List (String × Item)

namespace Entries

def replace (entries : Entries) (key : String) (item : Item) : Entries :=
  entries.map fun entry => if entry.1 = key then (key, item) else entry

/-- Changes the table at the end of a path.  Tables that are missing on the way
get the given origin; of an array of tables the last one is meant.  Dotted keys
do not lead through tables that have a header of their own, and nothing leads
through other items. -/
def edit (made : Origin) (change : Origin → Entries → Option Entries) :
    List String → Origin → Entries → Option Entries
  | [], origin, entries => change origin entries
  | key :: rest, _, entries =>
      match entries.lookup key with
      | none => do
          let inner ← edit made change rest made []
          return entries ++ [(key, .table made inner)]
      | some (.table .inline _) => none
      | some (.table origin inner) => do
          guard (made ≠ .dotted ∨ origin ≠ .header)
          let changed ← edit made change rest origin inner
          return entries.replace key (.table origin changed)
      | some (.tables rows) => do
          let changed ← edit made change rest .header (rows.getLastD [])
          return entries.replace key (.tables (rows.dropLast ++ [changed]))
      | some _ => none

/-- Adds an item under a new name to a table.  A dotted key adds to tables of
dotted keys only. -/
def add (isDotted : Bool) (key : String) (item : Item) (origin : Origin)
    (entries : Entries) : Option Entries := do
  guard (isDotted = (origin = .dotted))
  guard (entries.lookup key).isNone
  return entries ++ [(key, item)]

/-- Adds an item under a key that may be dotted. -/
def define (path : List String) (key : String) (item : Item)
    (origin : Origin) (entries : Entries) : Option Entries :=
  edit .dotted (add (!path.isEmpty) key item) path origin entries

/-- Opens the table of a header.  A table that so far has been named only in
the headers of others may still get its own. -/
def openTable (key : String) (_ : Origin) (entries : Entries) :
    Option Entries :=
  match entries.lookup key with
  | none => some (entries ++ [(key, .table .header [])])
  | some (.table .implied inner) =>
      some (entries.replace key (.table .header inner))
  | some _ => none

/-- Opens another table of an array of tables. -/
def openRow (key : String) (_ : Origin) (entries : Entries) :
    Option Entries :=
  match entries.lookup key with
  | none => some (entries ++ [(key, .tables [[]])])
  | some (.tables rows) => some (entries.replace key (.tables (rows ++ [[]])))
  | some _ => none

end Entries
end Toml
end WorkflowLang
