import AisScript.Unit
import AisScript.Build.Event
import AisScript.Build.Output
import AisScript.Text.Quoted

/-!
# Builds

A build compiles files, each a unit of its own, and then writes the generated text of those that
have no errors.  On the way it tells how far each file has come.

* `Observer.see`    progress of the passes over the units, in whatever order they come
* `deliver`         the end of one unit
* `run`             a whole build
-/

namespace AisScript.Build

/-- What is built, and where the generated text goes. -/
structure Request where
  files : List Text
  /-- Shortens the names of files, and is what places below the output directory are relative to. -/
  base : Text := []
  /-- Where the generated text goes; empty if it goes next to the sources. -/
  outDir : Text := []
  /-- Whether the generated text is printed and not written to files. -/
  prints : Bool := false
  options : Options := {}

/-- The names of the files of a request. -/
def Request.names (r : Request) (cwd : Text) : List Text := r.files.map (displayName cwd r.base)

/-! ## The passes -/

/-- The stage that a pass belongs to: reading a script and what it requires is one stage. -/
def stageOf : Phase → Stage
  | .parse | .require => .parse
  | .analyze => .analyze
  | .inline => .inline
  | .emit => .emit

/-- A pass over a unit begins or ends. -/
structure PhaseEvent where
  /-- The path of the unit. -/
  path : Text
  phase : Phase
  begins : Bool
deriving DecidableEq, Repr, Inhabited

/-- The beginning and the end of every pass over a unit. -/
def phaseEvents (o : Outcome) : List PhaseEvent :=
  o.passes.flatMap fun p => [⟨o.path, p.phase, true⟩, ⟨o.path, p.phase, false⟩]

/-- What is known of the passes so far. -/
structure Observer where
  /-- The names of the files by their paths. -/
  names : List (Text × Text)
  /-- The stage that each unit has reached. -/
  reached : List (Text × Stage) := []
  timings : Timings := {}
  events : List Event := []
deriving DecidableEq, Repr, Inhabited

namespace Observer

/-- The name of the unit at a path. -/
def nameOf (o : Observer) (path : Text) : Text := (o.names.lookup path).getD path

/-- The stage that a unit has reached. -/
def stage (o : Observer) (path : Text) : Stage := (o.reached.lookup path).getD .parse

/-- Takes note of a pass.  A unit that comes to another stage is told of. -/
def see (o : Observer) (e : PhaseEvent) : Observer :=
  let stage := stageOf e.phase
  if e.begins then
    let told : List Event :=
      if o.reached.lookup e.path = some stage then []
      else [{ file := o.nameOf e.path, stage, status := .working }]
    { o with
      reached := (e.path, stage) :: o.reached.filter (·.1 != e.path)
      events := o.events ++ told }
  else { o with timings := o.timings.add stage .zero }

/-- An observer of a request before anything has happened.  Of two files with one path the last
gives the name. -/
def start (r : Request) (cwd : Text) : Observer where
  names := ((r.files.map Path.clean).zip (r.names cwd)).reverse
  events := (r.names cwd).map fun file => { file, stage := .parse, status := .queued }

end Observer

/-! ## The results -/

/-- Why a build failed. -/
inductive BuildError where
  /-- Some units have errors. -/
  | unitsFailed (failed total : Nat)
  /-- A directory for an output could not be made. -/
  | folder (cause : DiskError)
  | output (path : Text) (cause : DiskError)
deriving DecidableEq, Repr

/-- The words for a unit with errors. -/
def unitFailed : Text := "build failed"

/-- The words of an error. -/
def BuildError.message : BuildError → Text
  | .unitsFailed failed total =>
    unitFailed ++ ": " ++ Text.ofNat failed ++ " of " ++ Text.ofNat total ++ " units reported errors"
  | .folder cause => "failed to create output dir: " ++ cause.message
  | .output path cause => "failed to write build output " ++ path.quote ++ ": " ++ cause.message

/-- A unit that was built, and the file its text was written to, if any. -/
structure BuiltUnit where
  outcome : Outcome
  name : Text
  outputPath : Text := []

/-- What a build comes to. -/
structure Result where
  /-- The outcomes of all files, whether their text could be written or not. -/
  compiled : List Outcome := []
  units : List BuiltUnit := []
  /-- The number of units with errors. -/
  failed : Nat := 0
  timings : Timings := {}
  events : List Event := []
  /-- The text that was printed. -/
  printed : Text := []
  error : Option BuildError := none

/-- Writes a file, and makes its directory if there is none. -/
def writeOutput (disk : Disk) (path text : Text) : Except BuildError Disk :=
  match disk.makeFolders (Path.dir path) with
  | .error e => .error (.folder e)
  | .ok disk => match disk.write path text with
    | .error e => .error (.output path e)
    | .ok disk => .ok disk

/-- Ends one unit: its errors are told of, or its text is written.  `stage` is the stage it has
reached.  A unit that cannot be written is not among the results. -/
def deliver (req : Request) (disk : Disk) (r : Result) (name : Text) (stage : Stage) (o : Outcome) :
    Result × Disk :=
  let tell (r : Result) (stage : Stage) (status : Status) (error : Option Text) : Result :=
    { r with events := r.events ++ [{ file := name, stage, status, error }] }
  let keep (r : Result) (outputPath : Text) : Result :=
    { r with units := r.units ++ [{ outcome := o, name, outputPath }] }
  if o.failed then (keep (tell { r with failed := r.failed + 1 } stage .error (some unitFailed)) [], disk)
  else match o.output with
    | none => (keep r [], disk)
    | some text =>
      let r := tell r .write .working none
      let r := { r with timings := r.timings.add .write .zero }
      let finished : Status := if o.cached then .cached else .done
      if req.prints then
        (keep (tell { r with printed := r.printed ++ text } .write finished none) [], disk)
      else
        let path := outputPath disk.cwd o.path req.outDir req.base
        match writeOutput disk path text with
        | .ok disk => (keep (tell r .write finished none) path, disk)
        | .error e => ({ tell r .write .error (some e.message) with error := some e }, disk)

/-- Ends units one after the other, up to the first that cannot be written. -/
def deliverAll (req : Request) (observer : Observer) (disk : Disk) (r : Result) :
    List (Text × Outcome) → Result × Disk
  | [] => (r, disk)
  | (name, o) :: os =>
    let (r, disk) := deliver req disk r name (observer.stage o.path) o
    if r.error.isSome then (r, disk) else deliverAll req observer disk r os

/-- Ends all units of a build, after the observer has seen all their passes. -/
def finish (req : Request) (disk : Disk) (observer : Observer) (outcomes : List Outcome) : Result × Disk :=
  let (r, disk) := deliverAll req observer disk
    { compiled := outcomes, timings := observer.timings, events := observer.events } ((req.names disk.cwd).zip outcomes)
  if r.error.isNone && 0 < r.failed then
    ({ r with error := some (.unitsFailed r.failed outcomes.length) }, disk)
  else (r, disk)

/-- Builds the files of a request one after the other. -/
def run (disk : Disk) (req : Request) : Except Fault (Result × Disk) := do
  let (outcomes, after) ← compileFiles disk req.options req.files
  let observer := (outcomes.flatMap phaseEvents).foldl Observer.see (Observer.start req disk.cwd)
  return finish req after observer outcomes

/-- What a build did, for a trace.  Files that could not be read were never compiled. -/
def Result.activity (r : Result) : Trace.Activity :=
  .span .driver "compile-files" [] []
    ((r.compiled.filter fun o => !o.passes.isEmpty).map Outcome.activity)

end AisScript.Build
