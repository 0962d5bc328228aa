import TimeSeries.Datum

/-!
# Trees of tables

A document is put together from headers and entries that come one after the other.
Each of them says where in the tree it belongs, and no place may be taken twice.
How a table came about decides what may still be added to it:

* `implied` by a longer header, it may get a header of its own, once;
* `dotted` keys make tables that only other dotted keys add to;
* `stated` tables had their header, and get the entries that follow it.
-/

namespace TimeSeries.Document

/-- How a table came about. -/
inductive Origin where
  | implied
  | dotted
  | stated
deriving DecidableEq

/-- A document that is being put together. -/
inductive Node where
  | value (d : Datum)
  | table (origin : Origin) (entries : List (String × Node))
  /-- Several tables under one key, the last one first. -/
  | tables (items : List (List (String × Node)))

mutual

/-- The tree as data. -/
def Node.toDatum : Node → Datum
  | .value d => d
  | .table _ entries => .table (entriesToData entries)
  | .tables items => .list (itemsToData items).reverse

/-- The entries of a table as data. -/
def entriesToData : List (String × Node) → List (String × Datum)
  | [] => []
  | (key, node) :: entries => (key, node.toDatum) :: entriesToData entries

/-- Several tables as data. -/
def itemsToData : List (List (String × Node)) → List Datum
  | [] => []
  | entries :: items => .table (entriesToData entries) :: itemsToData items

end

/-- The entries of a table. -/
abbrev Entries := List (String × Node)

/-- Puts `node` under `key`, in place of the one that may be there. -/
def Entries.set (entries : Entries) (key : String) (node : Node) : Entries :=
  if (List.lookup key entries).isSome then
    entries.map fun (k, old) => if k = key then (k, node) else (k, old)
  else entries ++ [(key, node)]

/-- Changes the entries of the table at `path`, making the tables on the way that are not there yet.
Of several tables under one key the last one is meant.  Where `dotted` holds, the path does not go
through a table that had a header of its own, unless it is one of several.  The `change` depends on
how the table it is made in came about. -/
def Entries.change? (entries : Entries) (origin : Origin) (dotted : Bool) (path : List String)
    (change : Origin → Entries → Option Entries) : Option Entries :=
  match path with
  | [] => change origin entries
  | key :: path =>
    match List.lookup key entries with
    | none =>
      let origin := if dotted then Origin.dotted else .implied
      return Entries.set entries key
        (.table origin (← Entries.change? [] origin dotted path change))
    | some (.table origin inner) =>
      if dotted && origin = .stated then none
      else
        return Entries.set entries key
          (.table origin (← Entries.change? inner origin dotted path change))
    | some (.tables (inner :: items)) =>
      return Entries.set entries key
        (.tables ((← Entries.change? inner .stated dotted path change) :: items))
    | some _ => none

/-- Adds the table of the header that ends in `key`, at `path`. -/
def Entries.open? (entries : Entries) (path : List String) (key : String) : Option Entries :=
  Entries.change? entries .stated false path fun _ inner =>
    match List.lookup key inner with
    | none => some (Entries.set inner key (.table .stated []))
    | some (.table .implied rows) => some (Entries.set inner key (.table .stated rows))
    | some _ => none

/-- Adds one more table to those under `key`, at `path`. -/
def Entries.openNext? (entries : Entries) (path : List String) (key : String) :
    Option Entries :=
  Entries.change? entries .stated false path fun _ inner =>
    match List.lookup key inner with
    | none => some (Entries.set inner key (.tables [[]]))
    | some (.tables items) => some (Entries.set inner key (.tables ([] :: items)))
    | some _ => none

/-- Adds an entry to the table at `path`, under a key that may be dotted itself. -/
def Entries.add? (entries : Entries) (path dots : List String) (key : String) (d : Datum) :
    Option Entries :=
  Entries.change? entries .stated false path fun origin inner =>
    Entries.change? inner origin true dots fun origin rows =>
      if (List.lookup key rows).isSome || (!dots.isEmpty && origin ≠ .dotted) then none
      else some (Entries.set rows key (.value d))

end TimeSeries.Document
