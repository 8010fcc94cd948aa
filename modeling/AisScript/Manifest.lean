import AisScript.Disk
import AisScript.Host
import AisScript.Text.Quoted
import AisScript.Toml.Reader
import AisScript.Build.Output

/-!
# Projects

A project is a directory with a manifest: which scripts belong to it, where the generated text goes
and which variables the host has.  Relative paths in a manifest start at its directory.

* `Manifest.load`        reads a manifest
* `Manifest.find`        looks for one in a directory and above it
* `expandSources`        the scripts among files and below directories
-/

namespace AisScript

open Toml (Key Table Value Document)

/-- What a manifest says. -/
structure Manifest where
  path : Text
  /-- The directory of the manifest. -/
  root : Text
  name : Text
  /-- Files and directories, resolved. -/
  sources : List Text
  /-- Where outputs go; empty if each goes next to its source. -/
  outDir : Text := []
  /-- The number of jobs. -/
  jobs : Int := 0
  cache : Bool := true
  globals : List Global := []

/-- Why a manifest cannot be used. -/
inductive ManifestError where
  /-- It cannot be read. -/
  | unreadable (cause : DiskError)
  /-- It is not TOML, or a value is of the wrong kind. -/
  | malformed
  /-- The reader lost its place in it. -/
  | lost
  | packageMissing
  | unknownKey (key : Key)
  | sourcesMissing
  /-- A host variable of a type there is none of. -/
  | badGlobal (name type : Text)
deriving Repr

/-- The words of an error of the manifest at a path. -/
def ManifestError.message (path : Text) (e : ManifestError) : Text :=
  path ++ ": " ++ match e with
    | .unreadable cause => "failed to parse TOML: " ++ cause.message
    | .malformed => "failed to parse TOML: malformed or of the wrong kind"
    | .lost => "failed to parse TOML: the reader lost its place"
    | .packageMissing => "missing [package]"
    | .unknownKey k => "unknown key " ++ (Toml.shownKey k).quote
    | .sourcesMissing => "missing [build].sources"
    | .badGlobal name type => "[globals]." ++ name ++ " = " ++ type.quote ++ ": unsupported global type"

namespace Manifest

/-! ## Fields -/

/-- A name with small letters for capital ones.  The Kelvin sign is a capital of `k`, and the long s
another small form of `s`. -/
def folded : Text → Text
  | [] => []
  | 0xE2 :: 0x84 :: 0xAA :: t => 0x6B :: folded t
  | 0xC5 :: 0xBF :: t => 0x73 :: folded t
  | b :: t => (if 0x41 ≤ b ∧ b ≤ 0x5A then b + 0x20 else b) :: folded t

/-- The fields of a table that have a given name, in capitals or small letters; one of exactly that
name comes first. -/
def fields (t : Table) (name : Text) : List (Text × Value) :=
  let (same, others) := t.partition (·.1 == name)
  same ++ others.filter fun m => folded m.1 == name

/-- What a manifest holds as it is written. -/
structure Content where
  /-- The keys that mean something. -/
  known : List Key := []
  name : Text := []
  sources : List Text := []
  outDir : Text := []
  jobs : Int := 0
  cache : Bool := true
  globals : List (Text × Text) := []

/-- A text. -/
def text? : Value → Option Text
  | .text t => some t
  | _ => none

/-- A list of texts. -/
def texts? : Value → Option (List Text)
  | .list vs => vs.mapM text?
  | _ => none

/-- An integer. -/
def integer? : Value → Option Int
  | .integer n => some n
  | _ => none

/-- A truth value. -/
def bool? : Value → Option Bool
  | .bool b => some b
  | _ => none

/-- A table. -/
def table? : Value → Option Table
  | .table t => some t
  | _ => none

/-- Reads the fields with a given name in the table at a key.  They all have to be of the right
kind, and the first one counts. -/
def read? {α : Type} (c : Content) (above : Key) (t : Table) (name : Text) (as : Value → Option α)
    (store : Content → α → Content) : Option Content := do
  let found := fields t name
  let values ← found.mapM fun m => as m.2
  let c := { c with known := c.known ++ found.map fun m => above ++ [m.1] }
  return match values.head? with
    | some v => store c v
    | none => c

/-- Reads the tables with a given name, each by its own reader. -/
def readTables? (c : Content) (t : Table) (name : Text) (reader : Content → Key → Table → Option Content) :
    Option Content :=
  (fields t name).foldlM (fun c m => do
    let inner ← table? m.2
    reader { c with known := c.known ++ [[m.1]] } [m.1] inner) c

/-- Reads the host's variables.  Anything but a table is passed over. -/
def readGlobals? (c : Content) (t : Table) : Option Content :=
  (fields t "globals").foldlM (fun c m => do
    let c := { c with known := c.known ++ [[m.1]] }
    match m.2 with
    | .table inner =>
      let globals ← inner.mapM fun g => do return (g.1, ← text? g.2)
      return { c with
        known := c.known ++ inner.map fun g => [m.1, g.1]
        globals := c.globals ++ globals }
    | _ => return c) c

/-- The content of a document, if every value is of the right kind. -/
def content? (d : Document) : Option Content := do
  let c ← readTables? {} d.root "package" fun c k t =>
    read? c k t "name" text? fun c v => { c with name := v }
  let c ← readTables? c d.root "build" fun c k t => do
    let c ← read? c k t "sources" texts? fun c v => { c with sources := v }
    let c ← read? c k t "out_dir" text? fun c v => { c with outDir := v }
    let c ← read? c k t "jobs" integer? fun c v => { c with jobs := v }
    read? c k t "cache" bool? fun c v => { c with cache := v }
  readGlobals? c d.root

/-! ## Loading -/

/-- A path of a manifest, which starts at `root` unless it is absolute. -/
def resolve (root p : Text) : Text := if Path.isAbsolute p then Path.clean p else Path.join root p

/-- A host variable, if there is such a type. -/
def global (g : Text × Text) : Except ManifestError Global :=
  match Host.globalType? g.2 with
  | some ty => .ok ⟨g.1, ty⟩
  | none => .error (.badGlobal g.1 g.2)

/-- The manifest in the bytes of a file.  Of several things that are wrong the first is told: a
malformed file, a missing package, an unknown key, missing sources, and a bad variable. -/
def ofFile (path bytes : Text) : Except ManifestError Manifest :=
  match Toml.document bytes with
  | .error .malformed => .error .malformed
  | .error .lost => .error .lost
  | .ok d =>
    match content? d with
    | none => .error .malformed
    | some c =>
      if (d.root.find? ["package"]).isNone then .error .packageMissing
      else match d.keys.find? (!c.known.contains ·) with
        | some k => .error (.unknownKey k)
        | none =>
          if c.sources.isEmpty then .error .sourcesMissing
          else do
            let root := Path.dir path
            let globals ← (c.globals.mergeSort fun a b => Text.le a.1 b.1).mapM global
            return {
              path, root, globals
              name := if c.name.trim.isEmpty then Path.base root else c.name.trim
              sources := c.sources.map (resolve root)
              outDir := if c.outDir.isEmpty then [] else resolve root c.outDir
              jobs := c.jobs
              cache := c.cache }

/-- Reads the manifest at a path. -/
def load (disk : Disk) (path : Text) : Except ManifestError Manifest :=
  match disk.read path with
  | .error e => .error (.unreadable e)
  | .ok bytes => ofFile path bytes

/-! ## Finding -/

/-- The file name of manifests. -/
def fileName : Text := "redux.toml"

/-- A place that could not be looked at. -/
structure FindError where
  candidate : Text
  cause : DiskError

/-- The words of an error. -/
def FindError.message (e : FindError) : Text :=
  "failed to stat " ++ e.candidate.quote ++ ": " ++ e.cause.message

/-- The first of some candidates that exists. -/
def firstOf (disk : Disk) : List Text → Except FindError (Option Text)
  | [] => .ok none
  | c :: cs =>
    match disk.stat c with
    | .ok _ => .ok (some c)
    | .error e => if e.cause = .notFound then firstOf disk cs else .error ⟨c, e⟩

/-- The directories from a place up to the root. -/
def ancestors (place : List Text) : List Text :=
  (List.range (place.length + 1)).reverse.map fun n => Path.ofComponents true (place.take n)

/-- The manifest of the project that a directory belongs to: the one in it, or in the nearest
directory above it. -/
def find (disk : Disk) (start : Text) : Except FindError (Option Text) :=
  let place := Path.cleanComponents (Path.absolute disk.cwd (if start.isEmpty then "." else start))
  firstOf disk ((ancestors place).map fun d => Path.join d fileName)

end Manifest

/-- The scripts that a path stands for: itself, or those below it if it is a directory. -/
def expandSource (disk : Disk) (p : Text) : Except DiskError (List Text) :=
  match disk.stat p with
  | .error e => .error e
  | .ok (.file _) => .ok [p]
  | .ok .folder => .ok (((disk.filesBelow p).map (·.1)).filter fun f => Path.ext f = sourceExt)

/-- The list without elements that equal the one in front of them. -/
def dropRepeats : List Text → List Text
  | a :: b :: l => if a = b then dropRepeats (b :: l) else a :: dropRepeats (b :: l)
  | l => l

/-- The scripts that paths stand for, in order and each once. -/
def expandSources (disk : Disk) (paths : List Text) : Except DiskError (List Text) := do
  let files ← paths.mapM (expandSource disk)
  return dropRepeats (files.flatten.mergeSort Text.le)

end AisScript
