import AisScript.Command.Verb
import AisScript.Manifest
import AisScript.Build
import AisScript.Build.Progress
import AisScript.Diagnostic.Report
import AisScript.Token.Listing
import AisScript.Tree.Dump

/-!
# The command line

A command reads the disk, prints and may write files.  All of that is a function: from the disk and
the arguments to the new disk, the two printed texts and the exit status.

* `Environment`   what a command knows besides its arguments
* `run`           a whole command
-/

namespace AisScript.Command

/-- What a command knows besides its arguments. -/
structure Environment where
  version : Version := {}
  /-- The directory that caches are kept in. -/
  cacheHome : Option Text := none
  /-- The time that traces show. -/
  now : Moment := ⟨0⟩
  /-- Whether errors go to a terminal. -/
  terminal : Bool := false

/-- Why a command failed. -/
inductive Failure where
  /-- Its diagnostics have been printed. -/
  | reported
  | message (words : Text)
  | fault (cause : Fault)

/-- A running command. -/
structure Running where
  disk : Disk
  stdout : Text := []
  stderr : Text := []
  session : Trace.Session := {}
  /-- The span of the whole command. -/
  span : Trace.OpenSpan := {}
  colored : Bool := false

/-- A part of a command.  What it printed stays printed when it fails. -/
abbrev Action := ExceptT Failure (StateM Running)

/-- Fails with words of its own. -/
def fail {α : Type} (words : Text) : Action α := throw (.message words)

/-- Goes on with a value, or fails with the words of an error. -/
def orFail {ε α : Type} (words : ε → Text) : Except ε α → Action α
  | .ok a => pure a
  | .error e => fail (words e)

/-- Prints. -/
def print (t : Text) : Action Unit := modify fun r => { r with stdout := r.stdout ++ t }

/-- Prints among the errors. -/
def printError (t : Text) : Action Unit := modify fun r => { r with stderr := r.stderr ++ t }

/-! ## Traces -/

/-- Whether a trace goes where errors go. -/
def tracesToErrors (s : Trace.Session) : Bool := s.config.path = ("-" : Text)

/-- Prints what has been traced so far, if it goes where errors go. -/
def Running.flush (r : Running) : Running :=
  if tracesToErrors r.session then
    { r with stderr := r.stderr ++ r.session.out, session := { r.session with out := [] } }
  else r

/-- Traces an activity inside the span of the command. -/
def traced (a : Trace.Activity) : Action Unit :=
  modify fun r => { r with session := r.session.perform r.span.number a }.flush

/-- What the flags say of traces.  A trace file alone asks for the phases. -/
def traceConfig (env : Environment) (s : Settings) : Except Text Trace.Config := do
  let named (what : Text) {α : Type} (r : Except Text α) : Except Text α :=
    match r with
    | .ok a => .ok a
    | .error e => .error ("invalid trace " ++ what ++ ": " ++ e)
  let level ← named "level" (Trace.Level.parse s.traceLevel)
  let level := if level = .off && !s.trace.isEmpty then .phase else level
  let mode ← named "mode" (Trace.Mode.parse s.traceMode)
  let format ← named "format" (Trace.Format.parse s.traceFormat)
  return {
    level, mode, format
    path := if s.trace.isEmpty then "-" else s.trace
    ringSize := s.traceRingSize
    now := env.now }

/-- The words for a trace file that cannot be written. -/
def traceFileError (e : DiskError) : Text := "failed to open trace output: " ++ e.message

/-- Opens the trace of a command and begins its span.  A file that events are written to as they
happen is made at once. -/
def openTrace (env : Environment) (s : Settings) (verb : Verb) : Action Unit := do
  let config ← orFail id (traceConfig env s)
  let session ← orFail ("failed to create tracer: " ++ ·) (Trace.Session.start? config)
  if session.streams && !tracesToErrors session then
    let disk ← orFail (fun e => "failed to create tracer: " ++ traceFileError e)
      ((← get).disk.write config.path [])
    modify fun r => { r with disk }
  let (session, span) := session.start 0 .driver ("cmd:" ++ verb.name)
  modify fun r => { r with session, span }.flush

/-- Ends the span of a command and its trace. -/
def Running.closeTrace (r : Running) (failed : Bool) : Running :=
  let (session, span) := r.session.finish r.span (if failed then "failed" else "ok")
  let writes := session.streams || session.dumps failed
  let r := { r with session := session.close failed, span }.flush
  if writes && !tracesToErrors r.session then
    match r.disk.write r.session.config.path r.session.out with
    | .ok disk => { r with disk }
    | .error e => { r with stderr := r.stderr ++ "trace: " ++ traceFileError e ++ "\n" }
  else r

/-! ## Diagnostics -/

/-- Decides whether errors are coloured. -/
def setColor (env : Environment) (s : Settings) : Action Unit := do
  let mode := s.color.trim.toLower
  let set (colored : Bool) : Action Unit := modify fun r => { r with colored }
  if mode = ("on" : Text) then set true
  else if mode = ("off" : Text) then set false
  else if mode.isEmpty || mode = ("auto" : Text) then set env.terminal
  else fail ("invalid --color value " ++ s.color.quote ++ " (expected auto|on|off)")

/-- Prints diagnostics in the format that is asked for, and tells whether there are errors among
them. -/
def printDiagnostics (s : Settings) (files : FileSet) (bag : Bag) : Action Bool := do
  if bag.items.isEmpty then return false
  let r ← get
  let cwd := r.disk.cwd
  let report : Option Text ←
    if s.diagnostics = ("short" : Text) then pure (Report.short files bag.items)
    else if s.diagnostics = ("pretty" : Text) then
      pure (Report.pretty
        { colored := r.colored, paths := { style := .relative, base := cwd, cwd }, notes := true }
        files bag.items)
    else if s.diagnostics = ("json" : Text) then
      pure (Report.json
        { positions := true, paths := { style := .asIs, base := [], cwd }, notes := true }
        files bag.items)
    else fail ("unknown diagnostics format: " ++ s.diagnostics)
  printError (report.getD [])
  return bag.hasErrors

/-! ## The commands -/

/-- The manifest of the project that the working directory belongs to. -/
def projectManifest (disk : Disk) : Except Text (Option Manifest) :=
  match Manifest.find disk disk.cwd with
  | .error e => .error e.message
  | .ok none => .ok none
  | .ok (some path) =>
    match Manifest.load disk path with
    | .ok m => .ok (some m)
    | .error e => .error (e.message path)

/-- The host of the project; without a usable manifest the standard one. -/
def hostOf (disk : Disk) : Host :=
  match projectManifest disk with
  | .ok (some m) => Host.default.withGlobals m.globals
  | _ => Host.default

/-- Lists the tokens of a file. -/
def tokenize (s : Settings) (path : Text) : Action Unit := do
  let file ← orFail (fun e : DiskError => "tokenization failed: " ++ e.message) ((← get).disk.load path)
  let (id, files) := ({} : FileSet).add file
  let ls := lexemes id file.content
  let bag := (Bag.new s.maxDiagnostics).addAll (ls.flatMap (·.reports))
  let failed ← printDiagnostics s files bag
  let tokens := ls.map (·.token)
  if s.format = ("pretty" : Text) then print (Token.listing file tokens)
  else if s.format = ("json" : Text) then print (Token.jsonListing tokens)
  else fail ("unknown format: " ++ s.format)
  if failed then throw .reported

/-- Compiles a file up to a goal, and prints its tree if that is asked for. -/
def examine (env : Environment) (s : Settings) (goal : Goal) (shows : Bool) (path : Text) : Action Unit := do
  let disk := (← get).disk
  let options : Options :=
    { goal, maxDiagnostics := s.maxDiagnostics, host := hostOf disk, timings := s.timings
      version := env.version }
  match compileFile disk options path with
  | .error (.load p e) => fail (((CompileError.load p e).message?).getD [])
  | .error (.fault f) => throw (.fault f)
  | .ok (o, _) =>
    traced o.activity
    if ← printDiagnostics s o.files o.bag then throw .reported
    match if shows then o.program else none with
    | some program => print program.dump
    | none => pure ()

/-- The files to build, the directory that their names are relative to, and the manifest that lists
them; arguments stand for themselves and need no manifest. -/
def inputs (disk : Disk) (args : List Text) : Except Text (List Text × Text × Option Manifest) :=
  let expanded (paths : List Text) : Except Text (List Text) :=
    match expandSources disk paths with
    | .ok fs => .ok fs
    | .error e => .error e.message
  if !args.isEmpty then do return (← expanded args, disk.cwd, none)
  else do
    match ← projectManifest disk with
    | none => .error ("no input files and no " ++ Manifest.fileName ++ " found")
    | some m => return (← expanded m.sources, m.root, some m)

/-- The times of the stages as a table. -/
def stageTable (t : Build.Timings) : Text :=
  let row (name : Text) (d : Duration) : Text :=
    name.flushLeft 8 ++ " " ++ (d.millis 1).flushRight 7 ++ " ms\n"
  let title (n : Text) : Text :=
    match n with
    | b :: rest => (b - 0x20) :: rest
    | [] => []
  let stage (s : Build.Stage) : Text :=
    match t.get? s with
    | some d => row (title s.name) d
    | none => []
  Build.Stage.all.flatMap stage ++ row "Total" t.total

/-- The ways of showing progress. -/
def uiModes : List Text := ["", "auto", "tui", "on", "plain", "off"]

/-- Builds files. -/
def build (env : Environment) (s : Settings) (args : List Text) : Action Unit := do
  if !uiModes.contains s.ui.toLower.trim then
    fail ("invalid --ui value " ++ s.ui.quote ++ " (expected auto|tui|plain)")
  let (files, base, manifest) ← orFail id (inputs (← get).disk args)
  if files.isEmpty then fail ("no " ++ sourceExt ++ " sources to build")
  let cached := !s.noCache && (manifest.map (·.cache)).getD true
  let cache : Option Cache ← do
    match if cached then env.cacheHome else none with
    | none => pure none
    | some home =>
      match Cache.open? (← get).disk (Path.join home Verb.none.name) with
      | none => pure none
      | some (cache, disk) => do
        modify fun r => { r with disk }
        pure (some cache)
  let host := Host.default.withGlobals ((manifest.map (·.globals)).getD [])
  let request : Build.Request :=
    { files, base
      outDir := if s.outDir.isEmpty then (manifest.map (·.outDir)).getD [] else s.outDir
      prints := s.prints
      options :=
        { maxDiagnostics := s.maxDiagnostics, host, cache, timings := s.timings, version := env.version } }
  match Build.run (← get).disk request with
  | .error f => throw (.fault f)
  | .ok (result, disk) =>
    modify fun r => { r with disk }
    traced result.activity
    print (if s.prints then result.printed else if s.quiet then [] else Build.Progress.lines result.events)
    for u in result.units do
      let _ ← printDiagnostics s u.outcome.files u.outcome.bag
    if s.timings then printError (stageTable result.timings)
    match result.error with
    | none => pure ()
    | some (.unitsFailed ..) => throw .reported
    | some e => fail e.message

/-- Shows the version. -/
def showVersion (env : Environment) (s : Settings) : Action Unit := do
  let v := env.version
  let known (t : Text) : Text := if t.trim.isEmpty then "unknown" else t.trim
  let part (wanted : Bool) (t : Text) : Text := Text.when (wanted || s.full) t
  let member (wanted : Bool) (k t : Text) : List (Text × Json) :=
    if wanted || s.full then [(k, .text (known t))] else []
  if s.format.toLower = ("json" : Text) then
    print (Json.record ([Json.member "tool" (.text Verb.none.name), Json.member "version" (.text v.number)]
      ++ member s.hash "git_commit" v.commit ++ member s.message "git_message" v.message
      ++ member s.date "build_date" v.date)).indented
  else if s.format.toLower = ("pretty" : Text) then
    print (Verb.none.name ++ " " ++ v.painted (← get).colored ++ "\n"
      ++ part s.hash ("commit:  " ++ known v.commit ++ "\n")
      ++ part s.message ("message: " ++ known v.message ++ "\n")
      ++ part s.date ("built:   " ++ known v.date ++ "\n"))
  else fail ("unsupported format " ++ s.format.quote ++ " (must be pretty or json)")

/-- What is shown to those who ask for help. -/
def helpText : Text := "reduxc compiles redux scripts into the AIS dialect\n"

/-- Does what a command asks for. -/
def perform (env : Environment) (s : Settings) (args : List Text) : Verb → Action Unit
  | .build => build env s args
  | .tokenize => tokenize s (args.head?.getD [])
  | .parse => examine env s .parse true (args.head?.getD [])
  | .check => examine env s .analyze false (args.head?.getD [])
  | .version => showVersion env s
  | .none | .help | .completion | .script _ => print helpText

/-- How a command ended. -/
structure Exit where
  disk : Disk
  stdout : Text := []
  stderr : Text := []
  status : Nat := 0

/-- The words printed for a failure, if any. -/
def Failure.words : Failure → Text
  | .reported => []
  | .message t => Verb.none.name ++ ": " ++ t ++ "\n"
  | .fault f => "fault: " ++ f.message?.getD "missing argument" ++ "\n"

/-- The exit status of a failure. -/
def Failure.status : Failure → Nat
  | .fault _ => 2
  | _ => 1

/-- Ends a command that was refused or has failed. -/
def Running.refuse (r : Running) (f : Failure) : Exit :=
  { disk := r.disk, stdout := r.stdout, stderr := r.stderr ++ f.words, status := f.status }

/-- Runs a command whose arguments have been read.  The trace is closed before a failure is
printed. -/
def runVerb (env : Environment) (disk : Disk) (verb : Verb) (s : Settings) (args : List Text) : Exit :=
  let prepare : Action Unit := do
    setColor env s
    openTrace env s verb
  match prepare.run.run { disk := disk } with
  | (.error f, r) => r.refuse f
  | (.ok (), r) =>
    match (perform env s args verb).run.run r with
    | (.error f, r) => (r.closeTrace true).refuse f
    | (.ok (), r) =>
      let r := r.closeTrace false
      { disk := r.disk, stdout := r.stdout, stderr := r.stderr }

/-- Whether arguments are as many as a command has to have. -/
def checkArity (verb : Verb) (args : List Text) : Except UsageError Unit :=
  match verb.arity?, args with
  | none, _ => .ok ()
  | some 0, a :: _ => .error (.unexpected a verb.path)
  | some n, args => if args.length = n then .ok () else .error (.argumentCount n args.length)

/-- Runs a command line.  Asking for help or for the version needs no other argument to be
right, but the flags have to be. -/
def run (env : Environment) (disk : Disk) (args : List Text) : Exit :=
  let refused (e : UsageError) : Exit := ({ disk := disk } : Running).refuse (.message e.message)
  match resolve args with
  | .error e => refused e
  | .ok (verb, args) =>
    match readFlags verb.allFlags {} args with
    | .error e => refused (.flag e)
    | .ok (s, args) =>
      if s.help then { disk, stdout := helpText }
      else if s.showVersion then
        { disk, stdout := Verb.none.name ++ " version " ++ env.version.number ++ "\n" }
      else if !verb.runs then { disk, stdout := helpText }
      else match checkArity verb args with
        | .error e => refused e
        | .ok () => runVerb env disk verb s args

end AisScript.Command
