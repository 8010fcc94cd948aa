import AisScript.Toml.Table
import AisScript.Text.Utf8

/-!
# The document in a TOML file

A document is a tree of tables that is filled key by key.  A key may be given once.  Tables come into
being by their header or, implicitly, because a longer key goes through them; a table that came into
being implicitly may be named once more by a header.  Keys that hold a plain list may be given again.

* `Toml.Document`          the tree, with all keys in the order of the file
* `Document.set?`          gives a key its value
* `Document.enter?`        makes the table that a header names
-/

namespace AisScript.Toml

/-- A byte of a name without quotes. -/
def isBare (b : UInt8) : Bool :=
  Text.isDigit b || (0x41 ≤ b && b ≤ 0x5A) || (0x61 ≤ b && b ≤ 0x7A) || b = 0x5F || b = 0x2D

/-- The content of a file. -/
structure Document where
  root : Table := []
  /-- The keys of the file in order: headers, and full keys of values. -/
  keys : List Key := []
  /-- The tables that came into being because a longer key goes through them. -/
  implicit : List Key := []
  /-- The keys that hold a plain list. -/
  lists : List Key := []
deriving Repr, Inhabited

namespace Document

/-- Marks a table as implicit. -/
def imply (d : Document) (k : Key) : Document := { d with implicit := k :: d.implicit }

/-- Marks a table as given. -/
def give (d : Document) (k : Key) : Document := { d with implicit := d.implicit.filter (· != k) }

/-- Notes whether a key holds a plain list. -/
def noteList (d : Document) (k : Key) (isList : Bool) : Document :=
  let others := d.lists.filter (· != k)
  { d with lists := if isList then k :: others else others }

/-- The key under which it is noted what a name in a table holds.  An empty name has no note of its
own: what it holds is noted for the table. -/
def noteKey (table : Key) (name : Text) : Key :=
  if name.isEmpty && !table.isEmpty then table else table ++ [name]

/-- Sets a name in the table at a key.  A name that exists already may be set again if it holds a
plain list; an implicit table stays as it is and counts as given from now on. -/
def set? (d : Document) (table : Key) (name : Text) (v : Value) : Option Document :=
  let key := table ++ [name]
  let write (d : Document) : Option Document := do
    return { d with root := ← d.root.alter (fun t => some (t.set name v)) table }
  match d.root.find? key with
  | none => write d
  | some _ =>
    if d.lists.contains key then write (d.give key)
    else if d.implicit.contains key then some (d.give key)
    else none

/-- Marks all tables above a key that do not exist yet as implicit. -/
def implyAbove (d : Document) (k : Key) : Document :=
  let above := (List.range (k.length - 1)).map fun n => k.take (n + 1)
  (above.filter fun p => (d.root.find? p).isNone).foldl imply d

/-- Enters a table: it is made, with all tables above it. -/
def enter? (d : Document) (k : Key) : Option Document := do
  let name ← k.getLast?
  let above := k.dropLast
  let root ← d.root.alter some above
  set? { d.implyAbove k with root } above name (.table [])

/-- Enters a new table at the end of a list of tables. -/
def enterNext? (d : Document) (k : Key) : Option Document := do
  let name ← k.getLast?
  let grown (t : Table) : Option Table :=
    match t.lookup name with
    | none => some (t.set name (.tables [[]]))
    | some (.tables ts) => some (t.set name (.tables (ts ++ [[]])))
    | some _ => none
  return { d.implyAbove k with root := ← d.root.alter grown k.dropLast }

/-- Enters the tables that a dotted key goes through, each of them implicitly. -/
def enterAll? (d : Document) (table : Key) : Key → Option Document
  | [] => some d
  | n :: ns => do
    let inner := table ++ [n]
    ((← (d.imply inner).enter? inner)).enterAll? inner ns

end Document

/-- A name of a key as it may be written: without quotes if it can be. -/
def shownName (n : Text) : Text :=
  if !n.isEmpty && n.all isBare then n else [0x22] ++ n.flatMap shown ++ [0x22]
where
  /-- One byte between quotes. -/
  shown (b : UInt8) : Text :=
    match b with
    | 0x22 => "\\\""
    | 0x5C => "\\\\"
    | 0x08 => "\\b"
    | 0x09 => "\\t"
    | 0x0A => "\\n"
    | 0x0C => "\\f"
    | 0x0D => "\\r"
    | _ => if b < 0x20 || b = 0x7F then "\\u" ++ Text.padded 4 16 b.toNat else [b]

/-- A key as it may be written. -/
def shownKey (k : Key) : Text := Text.join "." (k.map shownName)

end AisScript.Toml
