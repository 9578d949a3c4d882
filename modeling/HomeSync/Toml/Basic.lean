import HomeSync.Binary64.Basic

/-
TOML documents.

The statements of a document build up a tree of tables.  How a table came to be
decides what may still be added to it: a table in braces is closed, a table
with a header of its own has had its header, a table that only a longer header
mentions may still get one, and a table that dotted keys made may be extended
by dotted keys alone.
-/
namespace HomeSync

/-- How a table came to be. -/
inductive TableKind where
  | inline
  | header
  /-- Mentioned on the way to another table. -/
  | implied
  | dotted
  deriving DecidableEq

inductive Toml where
  | string (s : String)
  | integer (n : Int)
  | float (x : Binary64)
  | bool (b : Bool)
  | time
  | array (items : List Toml)
  | table (kind : TableKind) (entries : List (String × Toml))
  | tables (elements : List (List (String × Toml)))
  deriving Inhabited

namespace Toml

abbrev Entries := List (String × Toml)

def replace (key : String) (v : Toml) (entries : Entries) : Entries :=
  entries.map fun e => if e.1 = key then (key, v) else e

/-- Add a value under a dotted key.  The tables on the way are made if need be,
and the table that gets the value must be one that dotted keys made, unless the
key has but one part. -/
def insert (key : String) (v : Toml) : (path : List String) → Entries → Option Entries
  | [], entries =>
    match entries.lookup key with
    | none => some (entries ++ [(key, v)])
    | some _ => none
  | part :: path, entries =>
    match entries.lookup part with
    | none => (insert key v path []).map fun sub => entries ++ [(part, .table .dotted sub)]
    | some (.table .dotted sub) =>
      (insert key v path sub).map fun sub => replace part (.table .dotted sub) entries
    | some (.table .implied sub) =>
      if path.isEmpty then none
      else (insert key v path sub).map fun sub => replace part (.table .implied sub) entries
    | some (.tables elements) =>
      match path.isEmpty, elements.getLast? with
      | false, some last =>
        (insert key v path last).map fun last =>
          replace part (.tables (elements.dropLast ++ [last])) entries
      | _, _ => none
    | some _ => none

/-- Change the table that the parts of a header name.  Missing tables are
implied, and an array of tables stands for its last element. -/
def within (f : Entries → Option Entries) : (path : List String) → Entries → Option Entries
  | [], entries => f entries
  | part :: path, entries =>
    match entries.lookup part with
    | none => (within f path []).map fun sub => entries ++ [(part, .table .implied sub)]
    | some (.table .inline _) => none
    | some (.table kind sub) =>
      (within f path sub).map fun sub => replace part (.table kind sub) entries
    | some (.tables elements) =>
      match elements.getLast? with
      | some last =>
        (within f path last).map fun last =>
          replace part (.tables (elements.dropLast ++ [last])) entries
      | none => none
    | some _ => none

def openTable (key : String) (entries : Entries) : Option Entries :=
  match entries.lookup key with
  | none => some (entries ++ [(key, .table .header [])])
  | some (.table .implied sub) => some (replace key (.table .header sub) entries)
  | some _ => none

def openElement (key : String) (entries : Entries) : Option Entries :=
  match entries.lookup key with
  | none => some (entries ++ [(key, .tables [[]])])
  | some (.tables elements) => some (replace key (.tables (elements ++ [[]])) entries)
  | some _ => none

structure Key where
  path : List String
  last : String

namespace Key

def parts (k : Key) : List String := k.path ++ [k.last]

end Key

inductive Statement where
  | entry (key : Key) (v : Toml)
  | table (key : Key)
  | element (key : Key)

/-- A document as far as it is read: its root table and the table that entries
go to. -/
structure Draft where
  root : Entries := []
  current : List String := []

namespace Draft

def add (d : Draft) : Statement → Option Draft
  | .entry key v =>
    (within (insert key.last v key.path) d.current d.root).map fun root => { d with root }
  | .table key => (within (openTable key.last) key.path d.root).map fun root => ⟨root, key.parts⟩
  | .element key =>
    (within (openElement key.last) key.path d.root).map fun root => ⟨root, key.parts⟩

end Draft

def ofStatements? (statements : List Statement) : Option Entries :=
  (statements.foldlM Draft.add {}).map (·.root)

def inline? (entries : List (Key × Toml)) : Option Toml :=
  (entries.foldlM (fun sub e => insert e.1.last e.2 e.1.path sub) []).map (.table .inline)

/-! ## Records -/

/-- The values of a record with the given field names.  The record is a table,
which may have other entries too, or an array of the values in order. -/
def fields? (names : List String) : Toml → Option (List (Option Toml))
  | .table _ entries => some (names.map fun name => entries.lookup name)
  | .array items => some (positional names items)
  | .tables elements => some (positional names (elements.map (.table .header)))
  | _ => none
where
  positional (names : List String) (items : List Toml) : List (Option Toml) :=
    (List.range names.length).map fun i => items[i]?

def elements? : Toml → Option (List Toml)
  | .array items => some items
  | .tables elements => some (elements.map (.table .header))
  | _ => none

end Toml
end HomeSync
