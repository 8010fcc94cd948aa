import AisScript.Text.Lower
import AisScript.Text.Quoted
import AisScript.Text.Json
import AisScript.Text.Time

/-!
# Trace events

A trace tells what the compiler did: spans that begin and end, and single points inside them.  How
much of it is kept depends on the level.  Kinds, scopes and levels are numbers with names; numbers
without a name are carried along as they are.

* `Level.emits`      which scopes a level lets through
* `Event.render`     an event as one line for a reader, or as JSON for a program
-/

namespace AisScript.Trace

/-- What an event marks. -/
structure Kind where
  number : Nat
deriving DecidableEq, Repr, Inhabited

namespace Kind

/-- The beginning of a span. -/
def opening : Kind := ⟨1⟩
/-- The end of a span. -/
def closing : Kind := ⟨2⟩
/-- An instant. -/
def point : Kind := ⟨3⟩
/-- A sign of life, given at intervals. -/
def heartbeat : Kind := ⟨4⟩

/-- The name of a kind. -/
def name (k : Kind) : Text :=
  match k.number with
  | 1 => "begin"
  | 2 => "end"
  | 3 => "point"
  | 4 => "heartbeat"
  | _ => "unknown"

/-- The sign in front of an event in a listing. -/
def sign (k : Kind) : Text :=
  match k.number with
  | 1 => "→ "
  | 2 => "← "
  | 3 => "• "
  | 4 => "♡ "
  | _ => []

end Kind

/-- How fine-grained an event is: the higher the finer. -/
structure Scope where
  number : Nat
deriving DecidableEq, Repr, Inhabited

namespace Scope

/-- A whole command. -/
def driver : Scope := ⟨1⟩
/-- One script with what it requires. -/
def unit : Scope := ⟨2⟩
/-- One pass over a unit. -/
def pass : Scope := ⟨3⟩
/-- One expanded call. -/
def call : Scope := ⟨4⟩

/-- The name of a scope. -/
def name (s : Scope) : Text :=
  match s.number with
  | 1 => "driver"
  | 2 => "unit"
  | 3 => "pass"
  | 4 => "call"
  | _ => "unknown"

end Scope

/-- How much is traced. -/
structure Level where
  number : Nat
deriving DecidableEq, Repr, Inhabited

namespace Level

/-- Nothing. -/
def off : Level := ⟨0⟩
/-- Kept in memory and shown only after a failure. -/
def error : Level := ⟨1⟩
/-- Commands and units. -/
def phase : Level := ⟨2⟩
/-- Passes too. -/
def detail : Level := ⟨3⟩
/-- Everything. -/
def debug : Level := ⟨4⟩

/-- The levels that have names. -/
def all : List Level := [off, error, phase, detail, debug]

/-- The name of a level. -/
def name (l : Level) : Text :=
  match l.number with
  | 0 => "off"
  | 1 => "error"
  | 2 => "phase"
  | 3 => "detail"
  | 4 => "debug"
  | _ => "unknown"

/-- Whether anything is traced at all. -/
def isOn (l : Level) : Bool := 0 < l.number

/-- Whether events of a scope are let through. -/
def emits (l : Level) (s : Scope) : Bool :=
  match l.number with
  | 1 | 2 => s.number ≤ Scope.unit.number
  | 3 => s.number ≤ Scope.pass.number
  | 4 => true
  | _ => false

/-- The level with a given name, in any case of letters. -/
def parse (t : Text) : Except Text Level :=
  match all.find? (·.name == t.toLower) with
  | some l => .ok l
  | none => .error ("invalid trace level: " ++ t.quote ++ " (expected: off|error|phase|detail|debug)")

end Level

/-- How events are written. -/
inductive Format where
  /-- Decided by where they are written to. -/
  | auto
  | text
  /-- A JSON object a line. -/
  | json
deriving DecidableEq, Repr, Inhabited

/-- The format with a given name, in any case of letters. -/
def Format.parse (t : Text) : Except Text Format :=
  let word := t.toLower
  if word = [] || word = ("auto" : Text) then .ok .auto
  else if word = ("text" : Text) then .ok .text
  else if word = ("ndjson" : Text) || word = ("json" : Text) then .ok .json
  else .error ("invalid trace format: " ++ t.quote ++ " (expected: auto|text|ndjson)")

/-- One event of a trace. -/
structure Event where
  time : Moment := ⟨0⟩
  /-- The number of the event. -/
  seq : Nat := 0
  kind : Kind
  scope : Scope
  /-- The span that begins or ends; zero for none. -/
  span : Nat := 0
  /-- The span around it; zero for none. -/
  parent : Nat := 0
  /-- The thread that caused it. -/
  thread : Nat := 0
  name : Text
  detail : Text := []
  /-- Named remarks, ascending by name and without repetition. -/
  extra : List (Text × Text) := []
deriving DecidableEq, Repr, Inhabited

/-- Sets a remark and keeps the order of names. -/
def note (key value : Text) : List (Text × Text) → List (Text × Text)
  | [] => [(key, value)]
  | (k, v) :: rest =>
    if k = key then (key, value) :: rest
    else if key < k then (key, value) :: (k, v) :: rest
    else (k, v) :: note key value rest

namespace Event

/-- The event as one line for a reader, indented by its scope. -/
def listed (e : Event) : Text :=
  let remark (r : Text × Text) : Text := r.1 ++ "=" ++ r.2
  "[" ++ e.time.timeOfDay ++ "] " ++ Text.blanks (2 * (e.scope.number - 1)) ++ e.kind.sign ++ e.name
    ++ Text.when (!e.detail.isEmpty) (" (" ++ e.detail ++ ")")
    ++ Text.when (!e.extra.isEmpty) (" \x7b" ++ Text.join ", " (e.extra.map remark) ++ "\x7d")
    ++ "\n"

/-- The event as a JSON object; what is empty or zero is left out. -/
def toJson (e : Event) : Json :=
  let count (name : Text) (n : Nat) : List (Text × Json) := if n = 0 then [] else [(name, .number n)]
  .record ([Json.member "time" (.text e.time.stamp), Json.member "seq" (.number e.seq),
      Json.member "kind" (.text e.kind.name), Json.member "scope" (.text e.scope.name)]
    ++ count "span_id" e.span ++ count "parent_id" e.parent ++ count "gid" e.thread
    ++ [Json.member "name" (.text e.name)]
    ++ (if e.detail.isEmpty then [] else [Json.member "detail" (.text e.detail)])
    ++ (if e.extra.isEmpty then [] else
      [Json.member "extra" (.record (e.extra.map fun (k, v) => (k, .text v)))]))

/-- The event as a line of a trace. -/
def render (e : Event) (f : Format) : Text :=
  if f = .json then e.toJson.compact ++ "\n" else e.listed

end Event

/-- Whether an event passes the filter of a level.  Signs of life always do. -/
def Level.accepts (l : Level) (e : Event) : Bool := l.emits e.scope || e.kind = .heartbeat

end AisScript.Trace
