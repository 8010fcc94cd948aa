import AisScript.Text.Duration

/-!
# Progress events

A build tells how far each of its files has come.  The events are plain data; what they look like
to a reader is decided elsewhere.
-/

namespace AisScript.Build

/-- How far a file has come. -/
inductive Stage where
  | parse | analyze | inline | emit | write
  /-- A stage this build knows nothing of. -/
  | other (name : Text)
deriving DecidableEq, Repr, Inhabited

namespace Stage

/-- The stages of a build, in order. -/
def all : List Stage := [.parse, .analyze, .inline, .emit, .write]

/-- The name of a stage. -/
def name : Stage → Text
  | .parse => "parse"
  | .analyze => "analyze"
  | .inline => "inline"
  | .emit => "emit"
  | .write => "write"
  | .other n => n

/-- The stage with a given name. -/
def ofName (t : Text) : Stage := (all.find? (·.name == t)).getD (.other t)

end Stage

/-- What happens to a file in its stage. -/
inductive Status where
  | queued | working | done | cached | error
  /-- A status this build knows nothing of. -/
  | other (name : Text)
deriving DecidableEq, Repr, Inhabited

namespace Status

/-- The name of a status. -/
def name : Status → Text
  | .queued => "queued"
  | .working => "working"
  | .done => "done"
  | .cached => "cached"
  | .error => "error"
  | .other n => n

/-- The status with a given name. -/
def ofName (t : Text) : Status :=
  ([.queued, .working, .done, .cached, .error].find? (·.name == t)).getD (.other t)

/-- Whether nothing more happens to a file after this. -/
def isFinal : Status → Bool
  | .done | .cached | .error => true
  | _ => false

end Status

/-- Progress of one file, or of the whole build if the file is empty. -/
structure Event where
  file : Text
  stage : Stage
  status : Status
  /-- What went wrong. -/
  error : Option Text := none
  elapsed : Duration := .zero
deriving DecidableEq, Repr, Inhabited

/-- The word shown for a file in a given stage and status; none for what the build does not know. -/
def label (stage : Stage) (status : Status) : Text :=
  match status with
  | .queued => "queued"
  | .done => "done"
  | .cached => "cached"
  | .error => "error"
  | .working =>
    match stage with
    | .parse => "parsing"
    | .analyze => "analyzing"
    | .inline => "inlining"
    | .emit => "emitting"
    | .write => "writing"
    | .other _ => []
  | .other _ => []

/-- The time spent in each stage, over all files. -/
structure Timings where
  spent : List (Stage × Duration) := []
deriving DecidableEq, Repr, Inhabited

namespace Timings

/-- Adds time to a stage. -/
def add (t : Timings) (stage : Stage) (d : Duration) : Timings :=
  match t.spent.lookup stage with
  | some old => ⟨t.spent.map fun (s, e) => if s = stage then (s, old + d) else (s, e)⟩
  | none => ⟨t.spent ++ [(stage, d)]⟩

/-- The time of a stage, if any was recorded. -/
def get? (t : Timings) (stage : Stage) : Option Duration := t.spent.lookup stage

/-- The time of the stages of a build together. -/
def total (t : Timings) : Duration :=
  (Stage.all.map fun s => (t.get? s).getD .zero).foldl (· + ·) .zero

end Timings

end AisScript.Build
