import AisScript.Text

/-!
# Values and tables of TOML files

What the keys of a TOML file hold.  A table keeps its names in the order in which they were set, and
a key leads through tables to a value.

* `Toml.Value`          what a key holds
* `Toml.Table.find?`    follows a key
* `Toml.Table.alter`    changes the table that a key leads to
-/

namespace AisScript.Toml

/-- A key, from the outermost table to the innermost name. -/
abbrev Key := List Text

/-- What a key holds. -/
inductive Value where
  | text (value : Text)
  | integer (value : Int)
  /-- A number with a fraction or an exponent, or one of `inf` and `nan`. -/
  | float (spelling : Text)
  | bool (value : Bool)
  /-- A date, a time or both. -/
  | moment (spelling : Text)
  | list (elements : List Value)
  /-- The tables of a list of tables, in order. -/
  | tables (members : List (List (Text × Value)))
  | table (members : List (Text × Value))
deriving Repr, Inhabited

/-- A table: names and what they hold. -/
abbrev Table := List (Text × Value)

/-- The table with a name set. -/
def Table.set (t : Table) (name : Text) (v : Value) : Table :=
  if t.any (·.1 == name) then t.map fun m => if m.1 == name then (name, v) else m else t ++ [(name, v)]

/-- What a key holds in a table.  A key through a list of tables means the last of them. -/
def Table.find? (t : Table) : Key → Option Value
  | [] => some (.table t)
  | n :: ns =>
    match t.lookup n with
    | none => none
    | some v =>
      if ns.isEmpty then some v
      else match v with
        | .table t => Table.find? t ns
        | .tables ts => match ts.getLast? with
          | some t => Table.find? t ns
          | none => none
        | _ => none

/-- The table with the inner table at a key changed; tables that do not exist yet are made.  It
fails where something else than a table stands in the way. -/
def Table.alter (f : Table → Option Table) (t : Table) : Key → Option Table
  | [] => f t
  | n :: ns =>
    match t.lookup n with
    | none => do return t.set n (.table (← Table.alter f [] ns))
    | some (.table inner) => do return t.set n (.table (← Table.alter f inner ns))
    | some (.tables ts) =>
      match ts.getLast? with
      | some last => do return t.set n (.tables (ts.dropLast ++ [← Table.alter f last ns]))
      | none => none
    | some _ => none

end AisScript.Toml
