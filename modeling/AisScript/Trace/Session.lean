import AisScript.Trace.Ring

/-!
# Trace sessions

A session numbers spans and events and sends them where its mode says: written at once, kept in a
ring, or both.  When it closes, a ring is written out if there is reason to.

* `Session.start`, `finish`, `point`   spans and points inside them
* `Session.perform`                    a whole activity
* `Session.close`                      the end of a session
-/

namespace AisScript.Trace

/-- Where events go. -/
structure Mode where
  number : Nat
deriving DecidableEq, Repr, Inhabited

namespace Mode

/-- Written as they happen. -/
def stream : Mode := ⟨1⟩
/-- Kept in memory and written on closing. -/
def ring : Mode := ⟨2⟩
/-- Written as they happen, and once more from memory after a failure. -/
def both : Mode := ⟨3⟩

/-- The name of a mode. -/
def name (m : Mode) : Text :=
  match m.number with
  | 1 => "stream"
  | 2 => "ring"
  | 3 => "both"
  | _ => "unknown"

/-- The mode with a given name, in any case of letters; no name means the stream. -/
def parse (t : Text) : Except Text Mode :=
  if t.isEmpty then .ok stream
  else match [stream, ring, both].find? (·.name == t.toLower) with
    | some m => .ok m
    | none => .error ("invalid storage mode: " ++ t.quote ++ " (expected: stream|ring|both)")

end Mode

/-- What a session is opened with. -/
structure Config where
  level : Level := .off
  mode : Mode := .stream
  format : Format := .auto
  /-- The file that is written to; nothing or a dash mean the error output. -/
  path : Text := []
  /-- The number of slots of the ring. -/
  ringSize : Int := 0
  /-- The time of all events of the session. -/
  now : Moment := ⟨0⟩
deriving DecidableEq, Repr, Inhabited

/-- The format of a session: the given one, or the one the file's name asks for. -/
def Config.resolvedFormat (c : Config) : Format :=
  if c.format ≠ .auto then c.format
  else if c.path.endsWith ".ndjson" || c.path.endsWith ".json" then .json
  else .text

/-- A span that has begun.  A span that the level does not let through has number zero. -/
structure OpenSpan where
  number : Nat := 0
  parent : Nat := 0
  scope : Scope := ⟨0⟩
  name : Text := []
  extra : List (Text × Text) := []
  ended : Bool := false
deriving DecidableEq, Repr, Inhabited

/-- Whether a span was let through. -/
def OpenSpan.isLive (sp : OpenSpan) : Bool := sp.number ≠ 0

/-- A running trace. -/
structure Session where
  config : Config := {}
  /-- Whether events are written as they happen. -/
  streams : Bool := false
  ring : Option Ring := none
  /-- What has been written so far. -/
  out : Text := []
  /-- The number of events, of spans and of spans that have not ended. -/
  events : Nat := 0
  spans : Nat := 0
  unended : Nat := 0
deriving Inhabited

namespace Session

/-- Whether the session traces anything. -/
def isOn (s : Session) : Bool := s.streams || s.ring.isSome

/-- The level the session traces at. -/
def level (s : Session) : Level := if s.isOn then s.config.level else .off

/-- The mode after the level was looked at: what is shown after failures only is kept in memory. -/
def effectiveMode (c : Config) : Mode := if c.level = .error then .ring else c.mode

/-- A session that traces nothing. -/
def silent : Session := {}

/-- Opens a session.  With the level off it is silent whatever the mode. -/
def start? (c : Config) : Except Text Session :=
  if c.level = .off then .ok { config := c }
  else
    let config := { c with mode := effectiveMode c }
    let ring := Ring.new c.ringSize c.level
    if config.mode = .stream then .ok { config, streams := true }
    else if config.mode = .ring then .ok { config, ring := some ring }
    else if config.mode = .both then .ok { config, streams := true, ring := some ring }
    else .error ("unknown storage mode: " ++ c.mode.name)

/-- Sends an event where the mode says. -/
def emit (s : Session) (e : Event) : Session :=
  let e := { e with time := s.config.now, seq := s.events + 1, thread := 1 }
  { s with
    events := s.events + 1
    out := if s.streams && s.level.accepts e then s.out ++ e.render s.config.resolvedFormat else s.out
    ring := s.ring.map (·.emit e) }

/-- Begins a span inside another one. -/
def start (s : Session) (parent : Nat) (scope : Scope) (name : Text) : Session × OpenSpan :=
  if s.level.emits scope then
    let number := s.spans + 1
    ({ s with spans := number, unended := s.unended + 1 }.emit
      { kind := .opening, scope, span := number, parent, name }, { number, parent, scope, name })
  else (s, {})

/-- Ends a span; a span that has ended stays ended. -/
def finish (s : Session) (sp : OpenSpan) (detail : Text) : Session × OpenSpan :=
  if sp.isLive && !sp.ended then
    ({ s with unended := s.unended - 1 }.emit
      { kind := .closing, scope := sp.scope, span := sp.number, parent := sp.parent, name := sp.name,
        detail, extra := sp.extra }, { sp with ended := true })
  else (s, sp)

/-- Adds a remark to a span, to be told when it ends.  An end that a ring holds and that carries
remarks already takes later ones too. -/
def remark (s : Session) (sp : OpenSpan) (key value : Text) : Session × OpenSpan :=
  if sp.isLive then
    let extra := note key value sp.extra
    let amend (e : Event) : Event :=
      if e.kind = .closing && e.span = sp.number && !e.extra.isEmpty then { e with extra } else e
    ({ s with ring := s.ring.map fun r => { r with slots := r.slots.map (·.map amend) } },
      { sp with extra })
  else (s, sp)

/-- Marks an instant inside a span. -/
def point (s : Session) (parent : Nat) (scope : Scope) (name detail : Text) : Session :=
  if s.level.emits scope then s.emit { kind := .point, scope, parent, name, detail } else s

/-- Whether the ring is written on closing: in ring mode after a failure and at every level that
does not wait for one, in both mode after a failure. -/
def dumps (s : Session) (failed : Bool) : Bool :=
  s.ring.isSome && (failed || (s.config.mode = .ring && s.config.level ≠ .error))

/-- Ends the session; `out` then holds all that was written. -/
def close (s : Session) (failed : Bool) : Session :=
  match s.ring with
  | some r => if s.dumps failed then { s with out := s.out ++ r.dump s.config.resolvedFormat } else s
  | none => s

end Session

/-- Something that was done, with what was done inside it. -/
inductive Activity where
  | span (scope : Scope) (name detail : Text) (extra : List (Text × Text)) (inner : List Activity)
  | point (scope : Scope) (name detail : Text)
deriving Repr, Inhabited

mutual

/-- Traces an activity inside a span.  What happens inside a span that is not let through belongs
to the nearest one that is. -/
def Session.perform (s : Session) (parent : Nat) : Activity → Session
  | .span scope name detail extra inner =>
    let (s, sp) := s.start parent scope name
    let s := s.performAll (if sp.isLive then sp.number else parent) inner
    (s.finish { sp with extra } detail).1
  | .point scope name detail => s.point parent scope name detail

/-- Traces activities one after the other. -/
def Session.performAll (s : Session) (parent : Nat) : List Activity → Session
  | [] => s
  | a :: as => (s.perform parent a).performAll parent as

end

end AisScript.Trace
