/-! # Tables of TOML

What a key leads to: a text, a value of another kind, a table, or an array of tables. A table
remembers how it came about, since only a table that was made on the way to another one may be
opened by a header, and only one made by dotted keys may be extended by dotted keys.
-/
namespace PowConsensus.Toml

inductive Origin where
  /-- Opened by its own header, or an element of an array of tables. -/
  | header
  /-- On the way to a table with a header. -/
  | onPath
  /-- On the way to a dotted key. -/
  | dotted
  deriving DecidableEq, Repr

inductive Item where
  | text (cs : List Char)
  | other
  | table (origin : Origin) (entries : List (List Char × Item))
  /-- The tables of an array, the last one first. -/
  | tables (all : List (List (List Char × Item)))

abbrev Entries := List (List Char × Item)

namespace Entries

def get? (es : Entries) (key : List Char) : Option Item := (es.find? (·.1 == key)).map (·.2)

/-- Replaces the item under a key or adds it at the end. -/
def set (es : Entries) (key : List Char) (item : Item) : Entries :=
  if es.any (·.1 == key) then es.map fun e => if e.1 == key then (key, item) else e
  else es ++ [(key, item)]

/-- Changes the table at the end of a path, and makes the tables on the way that are missing. With
`byDots` the path is one of dotted keys and may not enter a table that has a header. -/
def update (byDots : Bool) (change : Origin → Entries → Option Entries) :
    List (List Char) → Origin → Entries → Option Entries
  | [], origin, es => change origin es
  | key :: path, _, es =>
    match es.get? key with
    | none =>
      let origin := if byDots then Origin.dotted else Origin.onPath
      (update byDots change path origin []).map fun t => es.set key (.table origin t)
    | some (.table origin t) =>
      if byDots ∧ origin = .header then none
      else (update byDots change path origin t).map fun t => es.set key (.table origin t)
    | some (.tables (last :: before)) =>
      (update byDots change path .header last).map fun t => es.set key (.tables (t :: before))
    | some _ => none

/-- Adds an item under a dotted key; the same key is not taken twice. -/
def define (path : List (List Char)) (key : List Char) (item : Item) (es : Entries) :
    Option Entries :=
  update true (fun origin t =>
    if (origin = .dotted) = (path = []) then none
    else if (t.get? key).isSome then none
    else some (t.set key item)) path .header es

/-- Opens a table by its header. -/
def openTable (path : List (List Char)) (key : List Char) (es : Entries) : Option Entries :=
  update false (fun _ t =>
    match t.get? key with
    | none => some (t.set key (.table .header []))
    | some (.table .onPath inner) => some (t.set key (.table .header inner))
    | some _ => none) path .header es

/-- Opens the next element of an array of tables. -/
def openElement (path : List (List Char)) (key : List Char) (es : Entries) : Option Entries :=
  update false (fun _ t =>
    match t.get? key with
    | none => some (t.set key (.tables [[]]))
    | some (.tables all) => some (t.set key (.tables ([] :: all)))
    | some _ => none) path .header es

/-- Adds an item under a dotted key in the table that a header has opened. -/
def defineIn (table path : List (List Char)) (key : List Char) (item : Item) (es : Entries) :
    Option Entries :=
  update false (fun _ t => t.define path key item) table .header es

end Entries
end PowConsensus.Toml
