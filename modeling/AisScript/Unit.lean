import AisScript.Require
import AisScript.Declare
import AisScript.Typing
import AisScript.Expand
import AisScript.Substitute
import AisScript.Generate
import AisScript.Cache
import AisScript.Stopwatch
import AisScript.Trace.Session

/-!
# Compilation units

A unit is one script with the files it requires.  Compiling it is a function of the disk: it gives
the unit's outcome and, because of the cache, a new disk.  Problems in the script end up in the
outcome's bag.

* `compile`          a file that was read already
* `compileFile`      a file on the disk
* `compileSource`    a script in memory
* `compileFiles`     several files, each a unit of its own
-/

namespace AisScript

/-- The passes over a unit, in order. -/
inductive Phase where
  | parse | require | analyze | inline | emit
deriving DecidableEq, Repr, Inhabited

/-- The name of a phase. -/
def Phase.name : Phase → Text
  | .parse => "parse"
  | .require => "require"
  | .analyze => "analyze"
  | .inline => "inline"
  | .emit => "emit"

/-- The last thing that is done to a unit. -/
inductive Goal where
  /-- Everything, up to the generated text. -/
  | emit
  /-- Reading the script and what it requires. -/
  | parse
  /-- Typing it. -/
  | analyze
deriving DecidableEq, Repr, Inhabited

/-- How a unit is compiled. -/
structure Options where
  goal : Goal := .emit
  /-- The number of diagnostics kept and of syntax errors reported; the usual one unless positive. -/
  maxDiagnostics : Int := 0
  host : Host := .default
  /-- Consulted for the generated text only. -/
  cache : Option Cache := none
  timings : Bool := false
  version : Version := {}

/-- The number of diagnostics kept. -/
def Options.limit (o : Options) : Nat := if 0 < o.maxDiagnostics then o.maxDiagnostics.toNat else 100

/-- One pass that was run, with what it counted and the calls it expanded. -/
structure Pass where
  phase : Phase
  counts : List (Text × Nat) := []
  calls : List Text := []
deriving DecidableEq, Repr, Inhabited

/-- The outcome of a unit. -/
structure Outcome where
  path : Text
  files : FileSet
  /-- The tree after the last pass; none if the text came from the cache. -/
  program : Option Block := none
  output : Option Text := none
  bag : Bag
  cached : Bool := false
  temps : Int := 0
  /-- The passes that were run, in order. -/
  passes : List Pass := []
  timing : Option Stopwatch := none

namespace Outcome

/-- Whether the unit has errors. -/
def failed (o : Outcome) : Bool := o.bag.hasErrors

/-- How the unit ended, in a word. -/
def status (o : Outcome) : Text := if o.failed then "failed" else if o.cached then "cached" else "ok"

/-- The passes as laps of a stopwatch. -/
def stopwatch (o : Outcome) : Stopwatch :=
  ⟨o.passes.map fun p =>
    { name := p.phase.name, counts := p.counts.map fun (k, n) => (k, (n : Int)), stopped := true }⟩

/-- What was done, for a trace. -/
def activity (o : Outcome) : Trace.Activity :=
  let pass (p : Pass) : Trace.Activity :=
    .span .pass p.phase.name [] (p.counts.foldl (fun l (k, n) => Trace.note k (Text.ofNat n) l) [])
      (p.calls.map fun f => .point .call ("call:" ++ f) [])
  .span .unit ("unit:" ++ o.path) o.status [] (o.passes.map pass)

/-- The timings as a diagnostic: the sum in words, and all laps as JSON in its note. -/
def timingReport (o : Outcome) : Diagnostic :=
  let w := o.stopwatch
  let laps := Json.record ([Json.member "kind" (.text "unit")]
    ++ (if o.path.isEmpty then [] else [Json.member "path" (.text o.path)])
    ++ [Json.member "total_ms" (.number (w.total.nanos.toInt / 1000000)),
      Json.member "phases" (.list (w.laps.map Stopwatch.lapJson))])
  { severity := .info, code := .timings, span := {}
    message := "timings (unit): total " ++ w.total.millis 2 ++ " ms"
      ++ Text.when (!o.path.isEmpty) (", " ++ o.path)
    notes := [⟨{}, laps.compact⟩] }

/-- The outcome with its timings, if those are wanted. -/
def withTimings (o : Outcome) (wanted : Bool) : Outcome :=
  if wanted then { o with timing := some o.stopwatch, bag := o.bag.add o.timingReport } else o

end Outcome

/-- Everything from typing on: the outcome after the passes that the goal asks for. -/
def Outcome.proceed (o : Outcome) (opts : Options) (program : Block) : Except Fault Outcome :=
  match program.declare opts.host with
  | (_, some f) => .error f
  | (declared, none) =>
    let (typed, error) := declared.annotate opts.host
    let o := { o with program := some typed, passes := o.passes ++ [{ phase := .analyze }] }
    match error with
    | some e => .ok { o with bag := o.bag.add e.diagnostic }
    | none =>
      if opts.goal = .analyze then .ok o
      else do
        let x ← typed.expand
        let program ← x.program.substituteEnums
        let program ← program.substituteStrings
        let output ← program.generate opts.host
        let inline : Pass :=
          { phase := .inline, counts := [("calls", x.functions.length), ("temps", x.temps)]
            calls := x.functions }
        let emit : Pass := { phase := .emit, counts := [("bytes", output.length)] }
        .ok { o with
          program := some program, output := some output, temps := x.temps
          passes := o.passes ++ [inline, emit] }

/-- Compiles a file, the first one of its unit.  The disk is read for the required files and for
the cache, and only the cache on it changes. -/
def compile (disk : Disk) (opts : Options) (file : SourceFile) : Except Fault (Outcome × Disk) :=
  let (id, files) := ({} : FileSet).add file
  let parsed := parse id opts.limit file.content
  let reporter : Reporter := Reporter.reportAll { bag := Bag.new opts.limit } parsed.reports
  let (program, reqs) := parsed.program.resolve disk opts.limit files reporter file
  let o : Outcome :=
    { path := file.path, files := reqs.files, program := some program, bag := reqs.reporter.bag
      passes := [{ phase := .parse }, { phase := .require, counts := [("files", reqs.loaded.length)] }] }
  if o.failed || opts.goal = .parse then .ok (o.withTimings opts.timings, disk)
  else
    match if opts.goal = .emit then opts.cache else none with
    | none => do
      let o ← o.proceed opts program
      return (o.withTimings opts.timings, disk)
    | some cache =>
      let digests := reqs.loaded.filterMap fun n => (reqs.files.get? n).map SourceFile.hash
      let key := Cache.key opts.version opts.host file.hash digests
      match cache.get? disk key with
      | some e =>
        .ok ({ o with output := e.output, temps := e.temps, cached := true, program := none }.withTimings
          opts.timings, disk)
      | none => do
        let o ← o.proceed opts program
        let disk :=
          if o.output.isNone then disk
          else cache.put disk key
            { form := Cache.currentForm, path := o.path, output := o.output, temps := o.temps }
        return (o.withTimings opts.timings, disk)

/-- Compiles a script in memory. -/
def compileSource (disk : Disk) (opts : Options) (name content : Text) : Except Fault (Outcome × Disk) :=
  compile disk opts (.inMemory name content)

/-- Why a file was not compiled. -/
inductive CompileError where
  /-- It could not be read. -/
  | load (path : Text) (cause : DiskError)
  | fault (cause : Fault)
deriving Repr

/-- The words of an error; some faults have none. -/
def CompileError.message? : CompileError → Option Text
  | .load path e => some ("load " ++ path ++ ": " ++ e.message)
  | .fault f => f.message?

/-- Compiles a file on the disk. -/
def compileFile (disk : Disk) (opts : Options) (path : Text) : Except CompileError (Outcome × Disk) :=
  match disk.load path with
  | .error e => .error (.load path e)
  | .ok f => match compile disk opts f with
    | .ok r => .ok r
    | .error fault => .error (.fault fault)

/-- The outcome of a file that cannot be read: an error in an empty file of that name. -/
def unreadable (opts : Options) (path : Text) (e : DiskError) : Outcome :=
  { path, files := ⟨[.inMemory path []]⟩
    bag := (Bag.new opts.limit).add
      { code := .unreadableFile, span := {}, message := "load " ++ path ++ ": " ++ e.message } }

/-- Compiles files one after the other, each as a unit of its own. -/
def compileFiles (disk : Disk) (opts : Options) : List Text → Except Fault (List Outcome × Disk)
  | [] => .ok ([], disk)
  | p :: ps => do
    let (o, disk) ← match compileFile disk opts p with
      | .ok r => .ok r
      | .error (.load path e) => .ok (unreadable opts path e, disk)
      | .error (.fault f) => .error f
    let (os, disk) ← compileFiles disk opts ps
    return (o :: os, disk)

end AisScript
