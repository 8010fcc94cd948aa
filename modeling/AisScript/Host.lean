import AisScript.Tree

/-!
# The host

What is known before the first statement of a script: the names of the host's variables, the
attributes of its objects, the words of its queries, and two functions that read and write fields
outside of time.

* `Host.default`, `Host.withGlobals`   the host's variables
* `Access.hasAttribute`                attributes of objects, by way of access
* `Host.achronal`                      the two functions, as if defined in front of every script
-/

namespace AisScript

/-- A variable of the host. -/
structure Global where
  name : Text
  ty : Ty
deriving DecidableEq, Repr

/-- The variables visible before the first statement. -/
structure Host where
  globals : List Global
deriving DecidableEq, Repr

/-- The name of the function that reads an achronal field. -/
def getAchronalField : Text := "__get_achronal_field"

/-- The name of the function that writes an achronal field. -/
def setAchronalField : Text := "__set_achronal_field"

namespace Host

/-- The standard variables. -/
def default : Host where
  globals := [⟨"perf_ret", .int⟩, ⟨"perf_ret_float", .float⟩, ⟨"self", .object⟩,
    ⟨"target", .object⟩, ⟨"query_unit", .object⟩, ⟨"current_time", .int⟩, ⟨"player", .int⟩]

/-- Whether the host has a variable of this name. -/
def has (h : Host) (name : Text) : Bool := h.globals.any (·.name == name)

/-- Adds a variable unless there is one of that name. -/
def add (h : Host) (g : Global) : Host := if h.has g.name then h else ⟨h.globals ++ [g]⟩

/-- Adds variables in the order of their names; a name already present keeps its type. -/
def withGlobals (h : Host) (extra : List Global) : Host :=
  (extra.mergeSort fun a b => Text.le a.name b.name).foldl add h

/-- Every name that is taken before the first statement. -/
def names (h : Host) : List Text :=
  h.globals.map (·.name) ++ Intrinsic.all.map (·.name) ++ [getAchronalField, setAchronalField]

/-- The type a host variable can be declared with. -/
def globalType? (word : Text) : Option Ty :=
  if word = "int" then some .int
  else if word = "float" then some .float
  else if word = "object" then some .object
  else none

/-- The two achronal functions.  Their passthrough code speaks of the parameters by name. -/
def achronal : List Stmt :=
  [.funcDef {} getAchronalField {} [⟨"num", {}⟩]
      (.mk [] [.code {} "PERFORM GET_ACHRONAL_FIELD num;", .ret {} (.name "perf_ret" {})] {}),
    .funcDef {} setAchronalField {} [⟨"num", {}⟩, ⟨"value", {}⟩]
      (.mk [] [.code {} "target = num; PERFORM SET_ACHRONAL_FIELD value;"] {})]

end Host

/-- The attributes of an object for a way of access. -/
def Access.attributes : Access → List Text
  | .dotted => ["hp", "max_hp", "energy", "player", "type", "x", "y", "z", "heading", "team"]
  | .chronal => ["age", "timeline", "birth_time", "death_time", "chrono_energy"]
  | .classwise => ["cost", "speed", "range", "armor", "build_time", "max_hp"]

/-- Whether an object has an attribute. -/
def Access.hasAttribute (a : Access) (name : Text) : Bool := a.attributes.contains name

namespace Query

/-- The kind of query that finds a unit. -/
def unit : Text := "UNIT"

/-- The kind of query that may not stand inside another query. -/
def bestMove : Text := "BESTMOVE"

/-- The kinds of queries. -/
def kinds : List Text := [unit, "VALUE", bestMove]

/-- The operations of queries. -/
def operations : List Text := ["MIN", "MAX", "SUM", "COUNT", "FIRST", "RANDOM"]

end Query

end AisScript
